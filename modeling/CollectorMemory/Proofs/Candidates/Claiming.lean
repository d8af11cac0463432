import CollectorMemory.Candidates.Claimer
import CollectorMemory.Proofs.Ensures

/-!
# Claiming regions in parallel

A region that is claimed stays claimed, and only the first claim of it succeeds. From its offset a
worker visits every region once.
-/

namespace CollectorMemory.Claimer

variable {excuse : Prop} {claimer : Claimer} {index start : Nat}

/-- A region is claimed. -/
def Holds (claimer : Claimer) (index : Nat) : Prop := claimer.claimed[index]? = some true

/-- A claimer after a region was claimed. -/
structure Claims (claimer : Claimer) (index : Nat) (after : Claimer) : Prop where
  /-- The number of regions stays. -/
  regions : after.regions = claimer.regions
  /-- The region is claimed in addition to those that were. -/
  holds : ∀ other, after.Holds other ↔ claimer.Holds other ∨ other = index

/-- The same regions are visited where there are equally many. -/
theorem visited_eq {after : Claimer} (regions : after.regions = claimer.regions) :
    after.visited = claimer.visited := by
  funext start count
  unfold visited
  rw [regions]

namespace Claims

variable {after : Claimer}

/-- What was claimed stays claimed. -/
theorem grows (claims : claimer.Claims index after) {other : Nat} (holds : claimer.Holds other) :
    after.Holds other := (claims.holds other).mpr (Or.inl holds)

/-- The region is claimed. -/
theorem held (claims : claimer.Claims index after) : after.Holds index :=
  (claims.holds index).mpr (Or.inr rfl)

end Claims

/-- At the start nothing is claimed. -/
theorem ofCounts_ensures {workers regions : Nat} (positive : 0 < workers) :
    Ensures excuse (ofCounts workers regions) fun result => result.workers = workers ∧
      result.regions = regions ∧ ∀ index, ¬result.Holds index := by
  unfold ofCounts
  apply Ensures.bind (ensures_require fun _ => decide_eq_true positive)
  intro _ _
  refine ⟨rfl, Array.size_replicate, fun index holds => ?_⟩
  obtain ⟨inside, isTrue⟩ := Array.getElem?_eq_some_iff.mp holds
  rw [Array.getElem_replicate] at isTrue
  cases isTrue

/-- A claim succeeds if the region was not claimed, and then the region is claimed. -/
theorem claim_ensures (inside : index < claimer.regions) :
    Ensures excuse (claimer.claim index) fun (isFirst, after) =>
      (isFirst = true ↔ ¬claimer.Holds index) ∧ claimer.Claims index after := by
  have within : index < claimer.claimed.size := inside
  unfold claim
  rw [dif_pos within]
  refine ⟨?_, Array.size_set within, fun other => ?_⟩
  · unfold Holds
    rw [Array.getElem?_eq_getElem within]
    simp
  · unfold Holds
    change (claimer.claimed.set index true within)[other]? = some true ↔ _
    rw [Array.getElem?_set]
    split
    · next same => exact ⟨fun _ => Or.inr same.symm, fun _ => rfl⟩
    · next differs => exact ⟨Or.inl, fun either => either.resolve_right fun same => differs same.symm⟩

/-- A worker that there is begins at its share of the regions. -/
theorem offset_ensures {worker : Nat} (inside : worker < claimer.workers)
    (short : ¬excuse → claimer.regions * worker < wordLimit) :
    Ensures excuse (claimer.offset worker) fun result =>
      result = claimer.regions * worker / claimer.workers := by
  unfold offset
  apply Ensures.bind (ensures_require fun _ => decide_eq_true inside)
  intro _ _
  apply Ensures.bind (Count.mul_ensures short)
  rintro _ ⟨rfl, _⟩
  rfl

/-- A worker visits regions of the heap only. -/
theorem visited_lt (count : Nat) (inside : 0 < claimer.regions) :
    claimer.visited start count < claimer.regions := Nat.mod_lt _ inside

/-- From any offset, every region is visited by the time that as many were visited as there are. -/
theorem exists_visited (start : Nat) (inside : index < claimer.regions) :
    ∃ count < claimer.regions, claimer.visited start count = index := by
  have startLt := Nat.mod_lt start (Nat.zero_lt_of_lt inside)
  unfold visited
  -- The worker comes to the region before it goes round, or only afterwards.
  by_cases ahead : start % claimer.regions ≤ index
  · refine ⟨index - start % claimer.regions, by omega, ?_⟩
    rw [← Nat.mod_add_mod, Nat.add_sub_cancel' ahead, Nat.mod_eq_of_lt inside]
  · refine ⟨index + claimer.regions - start % claimer.regions, by omega, ?_⟩
    rw [← Nat.mod_add_mod, Nat.add_sub_cancel' (by omega), Nat.add_mod_right, Nat.mod_eq_of_lt inside]

end CollectorMemory.Claimer
