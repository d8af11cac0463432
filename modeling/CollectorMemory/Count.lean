import CollectorMemory.Fault
import CollectorMemory.Units

/-!
# Counts

A count is a number below `wordLimit`. Sums, differences and products of counts are checked: an
operation gives the exact number if that is a count, and stops with `Fault.overflow` otherwise.
Rounding to a step that is not a power of two is built from the same operations.
-/

namespace CollectorMemory.Count

/-- A number, if it is a count. -/
def check (value : Nat) : Except Fault Nat :=
  if value < wordLimit then .ok value else .error .overflow

/-- The sum of two counts. -/
def add (left right : Nat) : Except Fault Nat := check (left + right)

/-- The product of two counts. -/
def mul (left right : Nat) : Except Fault Nat := check (left * right)

/-- The difference of two counts. -/
def sub (left right : Nat) : Except Fault Nat :=
  if right ≤ left then .ok (left - right) else .error .overflow

/-- The sum of a list of counts, from the front. -/
def sum (values : List Nat) : Except Fault Nat := values.foldlM add 0

/-- The sum of two counts of half a word, such as use counts and node numbers. -/
def addHalf (left right : Nat) : Except Fault Nat :=
  if left + right < 1 <<< 32 then .ok (left + right) else .error .overflow

/-- The least multiple of `step` that is not below `value`. -/
def roundUp (value step : Nat) : Except Fault Nat := do
  require (step > 0) .assertion
  mul ((value + step - 1) / step) step

/-- The greatest multiple of `step` that is not above `value`. -/
def roundDown (value step : Nat) : Except Fault Nat := do
  require (step > 0) .assertion
  return value / step * step

/-- Whether `value` is a multiple of `step`. -/
def isMultiple (value step : Nat) : Except Fault Bool := do
  require (step > 0) .assertion
  return value % step == 0

theorem check_eq_ok_iff {value result : Nat} :
    check value = .ok result ↔ result = value ∧ value < wordLimit := by
  unfold check
  split
  · simp_all [eq_comm]
  · exact ⟨nofun, fun both => absurd both.2 ‹_›⟩

theorem sub_eq_ok_iff {left right result : Nat} :
    sub left right = .ok result ↔ result = left - right ∧ right ≤ left := by
  unfold sub
  split
  · simp_all [eq_comm]
  · exact ⟨nofun, fun both => absurd both.2 ‹_›⟩

end CollectorMemory.Count
