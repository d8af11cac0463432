import CollectorMemory.Proofs.Occupancy.Granules

/-!
# Occupancy maps refine bits of granules

What an occupancy map says is two functions from granules to bits, `Marks`. An update of the map gives
the bits of one region in one of the functions a value (`Update.apply`), in whatever parts the packed
bytes are gone through, and queries of the map read the functions. No update and no query leaves the
bytes, so a run of updates of a new map succeeds and ends with the bits that the functions have.
-/

namespace CollectorMemory.Occupancy

/-- Two bits for each granule, by its number. -/
structure Marks where
  /-- Whether a chunk starts at a granule. -/
  starts : Nat → Bool
  /-- Whether a granule belongs to a chunk in use. -/
  inUse : Nat → Bool

/-- Nothing is marked. -/
def Marks.clear : Marks := ⟨fun _ => false, fun _ => false⟩

/-- An update of a map. -/
inductive Update where
  /-- Mark or clear the chunk start at an offset. -/
  | setStart (offset : Nat) (value : Bool)
  /-- Clear the chunk starts of a region. -/
  | clearStarts (offset size : Nat)
  /-- Mark a region in use or free. -/
  | setInUse (offset size : Nat) (value : Bool)

/-- A region of whole granules that begins in a range of words and does not go past its end. It may be
empty. -/
structure Fits (words granule offset size : Nat) : Prop where
  /-- The region begins with a granule. -/
  whole : offset % granule = 0
  /-- The region consists of granules. -/
  size_whole : size % granule = 0
  /-- The region begins in the range. -/
  below : offset < words
  /-- The region ends in the range. -/
  inside : offset + size ≤ words

/-- Whether a region fits can be decided. -/
instance (words granule offset size : Nat) : Decidable (Fits words granule offset size) :=
  decidable_of_iff (offset % granule = 0 ∧ size % granule = 0 ∧ offset < words ∧
      offset + size ≤ words)
    ⟨fun ⟨whole, sizeWhole, below, inside⟩ => ⟨whole, sizeWhole, below, inside⟩,
      fun ⟨whole, sizeWhole, below, inside⟩ => ⟨whole, sizeWhole, below, inside⟩⟩

/-- Whether a granule lies in a region. -/
def InRegion (granule offset size number : Nat) : Prop :=
  offset ≤ number * granule ∧ number * granule < offset + size

/-- Whether a granule lies in a region can be decided. -/
instance (granule offset size number : Nat) : Decidable (InRegion granule offset size number) :=
  inferInstanceAs (Decidable (_ ∧ _))

/-- Bits after those of a region were given a value. -/
def overwrite (granule offset size : Nat) (value : Bool) (bits : Nat → Bool) (number : Nat) : Bool :=
  if InRegion granule offset size number then value else bits number

namespace Update

/-- The region that an update is about, in granules of a size. -/
def region (granule : Nat) : Update → Nat × Nat
  | setStart offset _ => (offset, granule)
  | clearStarts offset size => (offset, size)
  | setInUse offset size _ => (offset, size)

/-- Update a map. -/
def perform (map : Occupancy) : Update → Except Fault Occupancy
  | setStart offset value => map.setStart offset value
  | clearStarts offset size => map.clearStarts offset size
  | setInUse offset size value => map.setInUse offset size value

/-- Give the bits of one region in one of the functions a value. -/
def apply (granule : Nat) (marks : Marks) : Update → Marks
  | setStart offset value =>
    { marks with starts := overwrite granule offset granule value marks.starts }
  | clearStarts offset size =>
    { marks with starts := overwrite granule offset size false marks.starts }
  | setInUse offset size value =>
    { marks with inUse := overwrite granule offset size value marks.inUse }

end Update

/-- Update a map by one update after the other. -/
def run (map : Occupancy) (updates : List Update) : Except Fault Occupancy :=
  updates.foldlM Update.perform map

/-- Each bit of the layers of a map is that of its granule. -/
structure Refines (map : Occupancy) (marks : Marks) : Prop where
  /-- The start bits are those of the granules. -/
  starts : ∀ number, map.starts.bit number = marks.starts number
  /-- The in-use bits are those of the granules. -/
  inUse : ∀ number, map.inUse.bit number = marks.inUse number

/-- A map answers all queries for granules and regions inside of it by the bits of the granules. -/
structure Answers (map : Occupancy) (marks : Marks) : Prop where
  /-- A chunk starts at an offset exactly if the granule there is marked as a start. -/
  startsAt : ∀ offset, offset % map.granule = 0 → offset < map.words →
    map.startsAt offset = .ok (marks.starts (offset / map.granule))
  /-- A region is in use in part exactly if one of its granules is. -/
  anyInUse : ∀ offset size, Fits map.words map.granule offset size → ∃ found,
    map.anyInUse offset size = .ok found ∧ (found = true ↔
      ∃ number, InRegion map.granule offset size number ∧ marks.inUse number = true)
  /-- A region is in use as a whole exactly if all of its granules are. -/
  allInUse : ∀ offset size, Fits map.words map.granule offset size → ∃ all,
    map.allInUse offset size = .ok all ∧ (all = true ↔
      ∀ number, InRegion map.granule offset size number → marks.inUse number = true)

variable {map after : Occupancy} {marks : Marks} {update : Update} {updates : List Update}
  {offset size : Nat} {value : Bool}

/-- The marks of a map at the offset of a granule are those of the granule. -/
theorem Refines.marks_mul (refines : map.Refines marks) (number : Nat) :
    map.marksStart (number * map.granule) = marks.starts number ∧
      map.marksInUse (number * map.granule) = marks.inUse number := by
  unfold marksStart marksInUse
  rw [Nat.mul_div_cancel number map.granule_pos]
  exact ⟨refines.starts number, refines.inUse number⟩

/-- A granule in a region of one granule is that granule. -/
theorem inRegion_single (granule_pos : 0 < map.granule) (whole : offset % map.granule = 0)
    (number : Nat) :
    InRegion map.granule offset map.granule number ↔ number * map.granule = offset := by
  have multiple : number * map.granule % map.granule = 0 := Nat.mul_mod_left number map.granule
  unfold InRegion
  constructor
  · intro ⟨lower, upper⟩
    have le := Nat.le_of_lt_add_of_dvd upper (Nat.dvd_of_mod_eq_zero multiple)
      (Nat.dvd_of_mod_eq_zero whole)
    omega
  · intro same
    omega

/-- A map refines the bits that it has at the offsets of the granules. -/
theorem Alike.refines (alike : map.Alike after)
    (starts : ∀ number, after.marksStart (number * map.granule) = marks.starts number)
    (inUse : ∀ number, after.marksInUse (number * map.granule) = marks.inUse number) :
    after.Refines marks := by
  have quotient : ∀ number, number * map.granule / after.granule = number := by
    intro number
    rw [alike.granule]
    exact Nat.mul_div_cancel number map.granule_pos
  constructor
  · intro number
    have same := starts number
    rwa [marksStart, quotient] at same
  · intro number
    have same := inUse number
    rwa [marksInUse, quotient] at same

/-- An update inside of a map succeeds and changes the bits of its region in its layer alone. -/
theorem Regular.perform_refines (regular : map.Regular) (refines : map.Refines marks)
    (fits : Fits map.words map.granule (update.region map.granule).1 (update.region map.granule).2) :
    ∃ after, update.perform map = .ok after ∧ map.Alike after ∧
      after.Refines (update.apply map.granule marks) := by
  have multiple : ∀ number, number * map.granule % map.granule = 0 := fun number =>
    Nat.mul_mod_left number map.granule
  cases update with
  | setStart offset value =>
    change Fits map.words map.granule offset map.granule at fits
    have sets : Ensures False (map.setStart offset value) _ :=
      setStart_ensures regular fits.whole fits.below
    obtain ⟨after, done, alike, starts, inUse⟩ := sets.exists_ok
    refine ⟨after, done, alike, alike.refines ?_ ?_⟩
    · intro number
      have single := inRegion_single map.granule_pos fits.whole number
      rw [starts _ (multiple number), (refines.marks_mul number).1]
      simp only [Update.apply, overwrite, single]
    · intro number
      rw [inUse, (refines.marks_mul number).2]
      rfl
  | clearStarts offset size =>
    obtain ⟨after, done, alike, starts, inUse⟩ :=
      (clearStarts_ensures regular fits.whole fits.size_whole fits.below fits.inside).exists_ok
    refine ⟨after, done, alike, alike.refines ?_ ?_⟩
    · intro number
      rw [starts _ (multiple number), (refines.marks_mul number).1]
      rfl
    · intro number
      rw [inUse, (refines.marks_mul number).2]
      rfl
  | setInUse offset size value =>
    have sets : Ensures False (map.setInUse offset size value) _ :=
      setInUse_ensures regular fits.whole fits.size_whole fits.below fits.inside
    obtain ⟨after, done, alike, inUse, starts⟩ := sets.exists_ok
    refine ⟨after, done, alike, alike.refines ?_ ?_⟩
    · intro number
      rw [starts, (refines.marks_mul number).1]
      rfl
    · intro number
      rw [inUse _ (multiple number), (refines.marks_mul number).2]
      rfl

/-- A run of updates inside of a map succeeds and ends with the bits that the updates give. -/
theorem Regular.run_ensures (regular : map.Regular) (refines : map.Refines marks)
    (fits : ∀ update ∈ updates, Fits map.words map.granule (update.region map.granule).1
      (update.region map.granule).2) :
    ∃ after, map.run updates = .ok after ∧ map.Alike after ∧
      after.Refines (updates.foldl (Update.apply map.granule) marks) := by
  induction updates generalizing map marks with
  | nil => exact ⟨map, rfl, Alike.refl regular, refines⟩
  | cons first rest ih =>
    obtain ⟨middle, performed, alike, middleRefines⟩ :=
      regular.perform_refines refines (fits first List.mem_cons_self)
    have restFits : ∀ update ∈ rest, Fits middle.words middle.granule
        (update.region middle.granule).1 (update.region middle.granule).2 := by
      intro update member
      rw [alike.words, alike.granule]
      exact fits update (List.mem_cons_of_mem first member)
    obtain ⟨after, done, restAlike, afterRefines⟩ := ih alike.regular middleRefines restFits
    rw [alike.granule] at afterRefines
    refine ⟨after, ?_, alike.trans restAlike, afterRefines⟩
    unfold run at done ⊢
    rw [List.foldlM_cons, performed]
    exact done

/-- A granule of a region, by its offset. -/
theorem exists_inRegion_iff (bits : Nat → Bool) :
    (∃ other, other % map.granule = 0 ∧ offset ≤ other ∧ other < offset + size ∧
        bits (other / map.granule) = true) ↔
      ∃ number, InRegion map.granule offset size number ∧ bits number = true := by
  constructor
  · intro ⟨other, whole, lower, upper, set⟩
    have same : other / map.granule * map.granule = other :=
      Nat.div_mul_cancel (Nat.dvd_of_mod_eq_zero whole)
    refine ⟨other / map.granule, ?_, set⟩
    unfold InRegion
    omega
  · intro ⟨number, inRegion, set⟩
    have multiple := Nat.mul_mod_left number map.granule
    refine ⟨number * map.granule, multiple, inRegion.1, inRegion.2, ?_⟩
    rw [Nat.mul_div_cancel number map.granule_pos]
    exact set

/-- A regular map answers by the bits that it refines. -/
theorem Regular.answers (regular : map.Regular) (refines : map.Refines marks) :
    map.Answers marks where
  startsAt offset whole below := by
    obtain ⟨found, answered, same⟩ := (startsAt_ensures regular whole below).exists_ok
    rw [answered, same, marksStart, refines.starts]
  anyInUse offset size fits := by
    obtain ⟨found, answered, someSet⟩ :=
      (anyInUse_ensures regular fits.whole fits.size_whole fits.below fits.inside).exists_ok
    refine ⟨found, answered, someSet.trans ?_⟩
    simp only [marksInUse, refines.inUse]
    exact exists_inRegion_iff marks.inUse
  allInUse offset size fits := by
    obtain ⟨all, answered, every⟩ :=
      (allInUse_ensures regular fits.whole fits.size_whole fits.below fits.inside).exists_ok
    refine ⟨all, answered, every.trans ?_⟩
    have someNot := @exists_inRegion_iff map offset size fun number => !marks.inUse number
    simp only [Bool.not_eq_true'] at someNot
    simp only [marksInUse, refines.inUse]
    grind

/-- A new map is regular and nothing is marked in it. -/
theorem ofWords_refines {words granule : Nat} (counted : words < wordLimit)
    (built : ofWords words granule = .ok map) :
    map.Regular ∧ map.words = words ∧ map.granule = granule ∧ map.Refines Marks.clear := by
  have sized : 0 < granule ∧ words % granule = 0 := by
    unfold ofWords at built
    by_cases positive : 0 < granule <;> by_cases whole : words % granule = 0 <;>
      simp [positive, whole] at built ⊢
  have new : Ensures False (ofWords words granule) _ := ofWords_ensures sized.1 sized.2 counted
  rw [built] at new
  obtain ⟨regular, isWords, isGranule, blank⟩ := new
  refine ⟨regular, isWords, isGranule, (Alike.refl regular).refines ?_ ?_⟩
  · exact fun number => (blank (number * map.granule)).1
  · exact fun number => (blank (number * map.granule)).2

/-- Every run of updates of a new map, for granules and regions inside of it, succeeds. Afterwards each
layer has the bits that the updates of that layer give, at every position and in every byte, and the
queries read these bits. -/
theorem run_refines {words granule : Nat} (counted : words < wordLimit)
    (built : ofWords words granule = .ok map)
    (fits : ∀ update ∈ updates,
      Fits words granule (update.region granule).1 (update.region granule).2) :
    ∃ after, map.run updates = .ok after ∧ after.words = words ∧ after.granule = granule ∧
      after.Refines (updates.foldl (Update.apply granule) Marks.clear) ∧
      after.Answers (updates.foldl (Update.apply granule) Marks.clear) := by
  obtain ⟨regular, isWords, isGranule, refines⟩ := ofWords_refines counted built
  subst isWords isGranule
  obtain ⟨after, done, alike, afterRefines⟩ := regular.run_ensures refines fits
  exact ⟨after, done, alike.words, alike.granule, afterRefines,
    alike.regular.answers afterRefines⟩

/-- Twenty granules of three words. Thirteen of them are in use across two byte bounds, and one of these
is freed again. -/
theorem run_refines_twenty :
    ∃ map after, ofWords 60 3 = .ok map ∧
      map.run [.setStart 9 true, .setInUse 9 39 true, .setInUse 24 3 false, .clearStarts 12 48] =
        .ok after ∧
      after.startsAt 9 = .ok true ∧ after.startsAt 12 = .ok false ∧
      after.anyInUse 24 3 = .ok false ∧ after.inUse.bit 9 = true := by
  obtain ⟨map, built⟩ : ∃ map, ofWords 60 3 = .ok map := ⟨_, rfl⟩
  let updates : List Update :=
    [.setStart 9 true, .setInUse 9 39 true, .setInUse 24 3 false, .clearStarts 12 48]
  obtain ⟨after, done, isWords, isGranule, refines, answers⟩ :=
    @run_refines map updates 60 3 (by decide) built (by decide)
  have starts := answers.startsAt
  have region := answers.anyInUse 24 3
  rw [isWords, isGranule] at starts region
  obtain ⟨found, answered, someSet⟩ := region (by decide)
  have free : found = false := by
    rw [← Bool.not_eq_true, someSet]
    intro ⟨number, inRegion, set⟩
    have eighth : number = 8 := by
      unfold InRegion at inRegion
      omega
    subst eighth
    revert set
    decide
  refine ⟨map, after, built, done, starts 9 rfl (by decide), starts 12 rfl (by decide), ?_, ?_⟩
  · rw [answered, free]
  · exact refines.inUse 9

end CollectorMemory.Occupancy
