import CollectorMemory.Proofs.Candidates.Sorting

/-!
# What one thread leaves fixed

Operations of one thread on a chooser change its slots, its front and what it counts. The heap, the
threshold and the cursor of the workers stay (`Chooser.Unshared`).
-/

namespace CollectorMemory.Chooser

variable {chooser : Chooser} {region : Region}

/-- What stays fixed of a chooser while no workers are at it: all that stays fixed while they are,
and the cursor. -/
structure Unshared (chooser after : Chooser) : Prop extends Alike chooser after where
  /-- The cursor stays. -/
  cursor : after.cursor = chooser.cursor

/-- What stays over two steps stays. -/
theorem Unshared.trans {middle after : Chooser} (first : chooser.Unshared middle)
    (second : middle.Unshared after) : chooser.Unshared after :=
  ⟨first.toAlike.trans second.toAlike, second.cursor.trans first.cursor⟩

/-- Appending a candidate involves no workers, and its bytes are counted. -/
theorem add_unshared : Ensures True (chooser.add region) fun after => chooser.Unshared after ∧
    after.remainingBytes = chooser.remainingBytes + region.reclaimableBytes := by
  unfold add
  apply Ensures.bind (ensures_excused _)
  intro _ _
  apply Ensures.bind (ensures_excused _)
  intro _ _
  apply Ensures.bind (ensures_excused _)
  intro _ _
  apply Ensures.bind (ensures_excused _)
  intro _ _
  apply Ensures.bind (Count.add_ensures fun hard => absurd trivial hard)
  rintro _ ⟨rfl, _⟩
  exact ⟨⟨⟨rfl, rfl, rfl⟩, rfl⟩, rfl⟩

/-- Taking a candidate involves no workers. -/
theorem pop_unshared : Ensures True chooser.pop fun result =>
    ∀ region after, result = some (region, after) → chooser.Unshared after := by
  unfold pop
  apply Ensures.bind (ensures_excused _)
  intro next _
  cases next with
  | none => exact fun _ _ isNone => nomatch isNone
  | some region =>
    apply Ensures.bind (ensures_excused _)
    intro _ _ other after isResult
    obtain ⟨_, rfl⟩ := Prod.mk.inj (Option.some.inj isResult)
    exact ⟨⟨rfl, rfl, rfl⟩, rfl⟩

/-- Putting a candidate back involves no workers. -/
theorem push_unshared : Ensures True (chooser.push region) chooser.Unshared := by
  unfold push
  apply Ensures.bind (ensures_excused _)
  intro _ _
  apply Ensures.bind (ensures_excused _)
  intro _ _
  apply Ensures.bind (ensures_excused _)
  intro _ _
  apply Ensures.bind (ensures_excused _)
  intro _ _
  exact ⟨⟨rfl, rfl, rfl⟩, rfl⟩

/-- Sorting involves no workers. -/
theorem sort_unshared : Ensures True chooser.sort.outcome chooser.Unshared := by
  apply sort_sortsTo.mono
  rintro _ ⟨_, sorts⟩
  rw [sorts.isAfter]
  exact ⟨⟨rfl, rfl, rfl⟩, rfl⟩

end CollectorMemory.Chooser
