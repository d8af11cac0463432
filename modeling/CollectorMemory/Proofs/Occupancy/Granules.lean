import CollectorMemory.Occupancy.Basic
import CollectorMemory.Proofs.Occupancy.Bits
import Mathlib.Data.Nat.ModEq

/-!
# Occupancy maps as functions of offsets

An occupancy map is read through two functions of word offsets, `marksStart` and `marksInUse`. On a
regular map every operation succeeds for offsets and sizes that are multiples of the granule and lie
inside of the map, and it changes exactly one of the two functions on exactly its range.
-/

namespace CollectorMemory.Occupancy

variable {excuse : Prop} {map : Occupancy}

/-- Whether a chunk start is marked at an offset. -/
def marksStart (map : Occupancy) (offset : Nat) : Bool := map.starts.bit (offset / map.granule)

/-- Whether the granule at an offset is marked in use. -/
def marksInUse (map : Occupancy) (offset : Nat) : Bool := map.inUse.bit (offset / map.granule)

/-- A map whose layers have a bit for every granule and whose offsets are counts. -/
structure Regular (map : Occupancy) : Prop where
  /-- The range of the map ends at a granule bound. -/
  whole : map.words % map.granule = 0
  /-- Offsets in the map are counts. -/
  counted : map.words < wordLimit
  /-- There is a start bit for every granule. -/
  starts_room : map.words / map.granule ≤ map.starts.room
  /-- There is an in-use bit for every granule. -/
  inUse_room : map.words / map.granule ≤ map.inUse.room

/-- Two maps of the same shape, the second of which is regular. -/
structure Alike (map after : Occupancy) : Prop where
  /-- The second map is regular. -/
  regular : after.Regular
  /-- Both maps have the same range. -/
  words : after.words = map.words
  /-- Both maps have the same granule. -/
  granule : after.granule = map.granule
  /-- The start bits take the same room. -/
  starts_room : after.starts.room = map.starts.room
  /-- The in-use bits take the same room. -/
  inUse_room : after.inUse.room = map.inUse.room

/-- A regular map has its own shape. -/
theorem Alike.refl (regular : map.Regular) : map.Alike map := ⟨regular, rfl, rfl, rfl, rfl⟩

/-- A map that keeps its shape in two steps keeps it. -/
theorem Alike.trans {middle after : Occupancy} (first : map.Alike middle)
    (second : middle.Alike after) : map.Alike after where
  regular := second.regular
  words := second.words.trans first.words
  granule := second.granule.trans first.granule
  starts_room := second.starts_room.trans first.starts_room
  inUse_room := second.inUse_room.trans first.inUse_room

/-- Multiples of a step are in the order of their quotients. -/
theorem quotient_lt_iff {step left right : Nat} (positive : 0 < step) (leftWhole : left % step = 0)
    (rightWhole : right % step = 0) : left / step < right / step ↔ left < right := by
  have leftSplit := Nat.div_add_mod left step
  have rightSplit := Nat.div_add_mod right step
  rw [leftWhole, Nat.add_zero] at leftSplit
  rw [rightWhole, Nat.add_zero] at rightSplit
  rw [← Nat.mul_lt_mul_left positive, leftSplit, rightSplit]

/-- Multiples of a step are equal if their quotients are. -/
theorem quotient_inj {step left right : Nat} (leftWhole : left % step = 0)
    (rightWhole : right % step = 0) : left / step = right / step ↔ left = right := by
  have leftSplit := Nat.div_add_mod left step
  have rightSplit := Nat.div_add_mod right step
  rw [leftWhole, Nat.add_zero] at leftSplit
  rw [rightWhole, Nat.add_zero] at rightSplit
  exact ⟨fun same => by rw [← leftSplit, ← rightSplit, same], fun same => by rw [same]⟩

/-- A sum of multiples of a step is a multiple of it. -/
theorem add_whole {step left right : Nat} (leftWhole : left % step = 0)
    (rightWhole : right % step = 0) : (left + right) % step = 0 := by
  rw [Nat.add_mod, leftWhole, rightWhole, Nat.add_zero, Nat.zero_mod]

/-- The granules of a region are those whose offsets lie in it. -/
theorem quotient_mem_iff {step offset size other : Nat} (positive : 0 < step)
    (offsetWhole : offset % step = 0) (sizeWhole : size % step = 0) (otherWhole : other % step = 0) :
    offset / step ≤ other / step ∧ other / step < offset / step + size / step ↔
      offset ≤ other ∧ other < offset + size := by
  have stop : (offset + size) / step = offset / step + size / step :=
    Nat.add_div_of_dvd_right (Nat.dvd_of_mod_eq_zero offsetWhole)
  have lower := quotient_lt_iff positive otherWhole offsetWhole
  have upper := quotient_lt_iff positive otherWhole (add_whole offsetWhole sizeWhole)
  rw [stop] at upper
  omega

/-- Two maps of the shape of a map are equal if all of their marks are. -/
theorem Alike.eq_of_marks {left right : Occupancy} (first : map.Alike left)
    (second : map.Alike right)
    (starts : ∀ offset, offset % map.granule = 0 → left.marksStart offset = right.marksStart offset)
    (inUse : ∀ offset, offset % map.granule = 0 → left.marksInUse offset = right.marksInUse offset) :
    left = right := by
  have ofMarks : ∀ {leftLayer rightLayer : Layer}, leftLayer.room = rightLayer.room →
      (∀ offset, offset % map.granule = 0 →
        leftLayer.bit (offset / map.granule) = rightLayer.bit (offset / map.granule)) →
      leftLayer = rightLayer := by
    intro leftLayer rightLayer room marks
    apply Layer.eq_of_bits room
    intro position
    have same := marks (position * map.granule) (Nat.mul_mod_left _ _)
    rw [Nat.mul_div_cancel _ map.granule_pos] at same
    exact same
  unfold marksStart at starts
  unfold marksInUse at inUse
  simp only [first.granule, second.granule] at starts inUse
  have sameStarts := ofMarks (first.starts_room.trans second.starts_room.symm) starts
  have sameInUse := ofMarks (first.inUse_room.trans second.inUse_room.symm) inUse
  have sameWords := first.words.trans second.words.symm
  have sameGranule := first.granule.trans second.granule.symm
  cases left
  cases right
  simp_all

/-- The granule of an offset in the map. -/
theorem position_ensures {offset : Nat} (whole : offset % map.granule = 0)
    (inside : offset < map.words) :
    Ensures excuse (map.position offset) fun position => position = offset / map.granule := by
  unfold position
  apply Ensures.bind (ensures_require fun _ => by simpa using whole)
  intro _ _
  apply Ensures.bind (ensures_require fun _ => decide_eq_true inside)
  intro _ _
  rfl

/-- The granule of an offset in the map has bits in both layers. -/
theorem Regular.position_lt (regular : map.Regular) {offset : Nat}
    (whole : offset % map.granule = 0) (inside : offset < map.words) :
    offset / map.granule < map.words / map.granule :=
  (quotient_lt_iff map.granule_pos whole regular.whole).mpr inside

/-- The granules of a region in the map have bits in both layers. -/
theorem region_le {offset size : Nat}
    (whole : offset % map.granule = 0) (inside : offset + size ≤ map.words) :
    offset / map.granule + size / map.granule ≤ map.words / map.granule := by
  rw [← Nat.add_div_of_dvd_right (Nat.dvd_of_mod_eq_zero whole)]
  exact Nat.div_le_div_right inside

/-- The granules of a region in the map. -/
theorem range_ensures (regular : map.Regular) {offset size : Nat}
    (whole : offset % map.granule = 0) (sizeWhole : size % map.granule = 0) (below : offset < map.words)
    (inside : offset + size ≤ map.words) :
    Ensures excuse (map.range offset size) fun range =>
      range = (offset / map.granule, offset / map.granule + size / map.granule) := by
  have counted := regular.counted
  unfold range
  apply Ensures.bind (ensures_require fun _ => by simpa using sizeWhole)
  intro _ _
  apply Ensures.bind (Count.add_ensures fun _ => by omega)
  rintro stop ⟨rfl, _⟩
  apply Ensures.bind (ensures_require fun _ => decide_eq_true inside)
  intro _ _
  apply Ensures.bind (position_ensures whole below)
  rintro first rfl
  rfl

/-- Asking for a chunk start. -/
theorem startsAt_ensures (regular : map.Regular) {offset : Nat} (whole : offset % map.granule = 0)
    (inside : offset < map.words) :
    Ensures excuse (map.startsAt offset) fun value => value = map.marksStart offset := by
  have granuleInside := regular.position_lt whole inside
  unfold startsAt
  apply Ensures.bind (position_ensures whole inside)
  rintro position rfl
  exact map.starts.get_ensures (Nat.lt_of_lt_of_le granuleInside regular.starts_room)

/-- Marking or clearing a chunk start changes the start mark of that offset alone. -/
theorem setStart_ensures (regular : map.Regular) {offset : Nat} {value : Bool}
    (whole : offset % map.granule = 0) (inside : offset < map.words) :
    Ensures excuse (map.setStart offset value) fun after =>
      map.Alike after ∧
      (∀ other, other % map.granule = 0 →
        after.marksStart other = if other = offset then value else map.marksStart other) ∧
      ∀ other, after.marksInUse other = map.marksInUse other := by
  have granuleInside := regular.position_lt whole inside
  unfold setStart
  apply Ensures.bind (position_ensures whole inside)
  rintro position rfl
  apply Ensures.bind (map.starts.set_ensures
    (Nat.lt_of_lt_of_le granuleInside regular.starts_room))
  rintro starts ⟨sameRoom, bits⟩
  refine ⟨⟨⟨regular.whole, regular.counted, ?_, regular.inUse_room⟩, rfl, rfl, sameRoom, rfl⟩, ?_,
    fun _ => rfl⟩
  · rw [sameRoom]
    exact regular.starts_room
  · intro other otherWhole
    have same := quotient_inj otherWhole whole
    simp only [marksStart, bits, same]

/-- Clearing the chunk starts of a region changes the start marks of that region alone. -/
theorem clearStarts_ensures (regular : map.Regular) {offset size : Nat}
    (whole : offset % map.granule = 0) (sizeWhole : size % map.granule = 0) (below : offset < map.words)
    (inside : offset + size ≤ map.words) :
    Ensures excuse (map.clearStarts offset size) fun after =>
      map.Alike after ∧
      (∀ other, other % map.granule = 0 → after.marksStart other =
        if offset ≤ other ∧ other < offset + size then false else map.marksStart other) ∧
      ∀ other, after.marksInUse other = map.marksInUse other := by
  have granulesInside := region_le whole inside
  unfold clearStarts
  apply Ensures.bind (range_ensures regular whole sizeWhole below inside)
  rintro ⟨first, last⟩ same
  cases same
  apply Ensures.bind (map.starts.setRange_ensures (Nat.le_add_right _ _)
    (Nat.le_trans granulesInside regular.starts_room))
  rintro starts ⟨sameRoom, bits⟩
  refine ⟨⟨⟨regular.whole, regular.counted, ?_, regular.inUse_room⟩, rfl, rfl, sameRoom, rfl⟩, ?_,
    fun _ => rfl⟩
  · rw [sameRoom]
    exact regular.starts_room
  · intro other otherWhole
    have within := quotient_mem_iff map.granule_pos whole sizeWhole otherWhole
    simp only [marksStart, bits, within]

/-- Marking a region in use or free changes the in-use marks of that region alone. -/
theorem setInUse_ensures (regular : map.Regular) {offset size : Nat} {value : Bool}
    (whole : offset % map.granule = 0) (sizeWhole : size % map.granule = 0) (below : offset < map.words)
    (inside : offset + size ≤ map.words) :
    Ensures excuse (map.setInUse offset size value) fun after =>
      map.Alike after ∧
      (∀ other, other % map.granule = 0 → after.marksInUse other =
        if offset ≤ other ∧ other < offset + size then value else map.marksInUse other) ∧
      ∀ other, after.marksStart other = map.marksStart other := by
  have granulesInside := region_le whole inside
  unfold setInUse
  apply Ensures.bind (range_ensures regular whole sizeWhole below inside)
  rintro ⟨first, last⟩ same
  cases same
  apply Ensures.bind (map.inUse.setRange_ensures (Nat.le_add_right _ _)
    (Nat.le_trans granulesInside regular.inUse_room))
  rintro inUse ⟨sameRoom, bits⟩
  refine ⟨⟨⟨regular.whole, regular.counted, regular.starts_room, ?_⟩, rfl, rfl, rfl, sameRoom⟩, ?_,
    fun _ => rfl⟩
  · rw [sameRoom]
    exact regular.inUse_room
  · intro other otherWhole
    have within := quotient_mem_iff map.granule_pos whole sizeWhole otherWhole
    simp only [marksInUse, bits, within]

/-- A bit of a region is set exactly if an offset of the region is marked. -/
theorem exists_bit_iff {layer : Layer} {granule offset size : Nat} (positive : 0 < granule)
    (whole : offset % granule = 0) (sizeWhole : size % granule = 0) :
    (∃ position, offset / granule ≤ position ∧ position < offset / granule + size / granule ∧
        layer.bit position) ↔
      ∃ other, other % granule = 0 ∧ offset ≤ other ∧ other < offset + size ∧
        layer.bit (other / granule) := by
  constructor
  · rintro ⟨position, lower, upper, set⟩
    have otherWhole : position * granule % granule = 0 := Nat.mul_mod_left position granule
    have quotient : position * granule / granule = position := Nat.mul_div_cancel _ positive
    have within := quotient_mem_iff positive whole sizeWhole otherWhole
    rw [quotient] at within
    obtain ⟨lower, upper⟩ := within.mp ⟨lower, upper⟩
    exact ⟨position * granule, otherWhole, lower, upper, by rw [quotient]; exact set⟩
  · rintro ⟨other, otherWhole, lower, upper, set⟩
    obtain ⟨lower, upper⟩ :=
      (quotient_mem_iff positive whole sizeWhole otherWhole).mpr ⟨lower, upper⟩
    exact ⟨other / granule, lower, upper, set⟩

/-- Asking whether a region is in use in part. A region of one granule is a single bit. -/
theorem anyInUse_ensures (regular : map.Regular) {offset size : Nat}
    (whole : offset % map.granule = 0) (sizeWhole : size % map.granule = 0) (below : offset < map.words)
    (inside : offset + size ≤ map.words) :
    Ensures excuse (map.anyInUse offset size) fun found =>
      found = true ↔ ∃ other, other % map.granule = 0 ∧ offset ≤ other ∧ other < offset + size ∧
        map.marksInUse other := by
  unfold anyInUse
  by_cases single : size = map.granule
  · rw [if_pos single]
    have granuleInside := regular.position_lt whole below
    have positive := map.granule_pos
    apply Ensures.bind (position_ensures whole below)
    rintro position rfl
    apply (map.inUse.get_ensures (Nat.lt_of_lt_of_le granuleInside regular.inUse_room)).mono
    rintro found rfl
    constructor
    · intro set
      exact ⟨offset, whole, Nat.le_refl _, by omega, set⟩
    · rintro ⟨other, otherWhole, lower, upper, set⟩
      have within := quotient_mem_iff map.granule_pos whole sizeWhole otherWhole
      have one : size / map.granule = 1 := by
        rw [single]
        exact Nat.div_self map.granule_pos
      have same : offset / map.granule = other / map.granule := by
        rw [one] at within
        omega
      rw [same]
      exact set
  · rw [if_neg single]
    have granulesInside := region_le whole inside
    apply Ensures.bind (range_ensures regular whole sizeWhole below inside)
    rintro ⟨first, last⟩ same
    cases same
    apply (map.inUse.anySet_ensures (Nat.le_add_right _ _)
      (Nat.le_trans granulesInside regular.inUse_room)).mono
    intro found exists_
    rw [exists_]
    exact exists_bit_iff map.granule_pos whole sizeWhole

/-- Asking whether a region is in use as a whole. -/
theorem allInUse_ensures (regular : map.Regular) {offset size : Nat}
    (whole : offset % map.granule = 0) (sizeWhole : size % map.granule = 0)
    (below : offset < map.words) (inside : offset + size ≤ map.words) :
    Ensures excuse (map.allInUse offset size) fun all =>
      all = true ↔ ∀ other, other % map.granule = 0 → offset ≤ other → other < offset + size →
        map.marksInUse other := by
  have granulesInside := region_le whole inside
  unfold allInUse
  apply Ensures.bind (range_ensures regular whole sizeWhole below inside)
  rintro ⟨first, last⟩ same
  cases same
  apply (map.inUse.allEach_ensures (Nat.le_trans granulesInside regular.inUse_room)).mono
  intro all forall_
  rw [forall_]
  constructor
  · intro every other otherWhole lower upper
    obtain ⟨lower, upper⟩ :=
      (quotient_mem_iff map.granule_pos whole sizeWhole otherWhole).mpr ⟨lower, upper⟩
    exact every (other / map.granule) lower upper
  · intro every position lower upper
    have otherWhole : position * map.granule % map.granule = 0 := Nat.mul_mod_left _ _
    have quotient : position * map.granule / map.granule = position :=
      Nat.mul_div_cancel _ map.granule_pos
    have within := quotient_mem_iff map.granule_pos whole sizeWhole otherWhole
    rw [quotient] at within
    obtain ⟨lower, upper⟩ := within.mp ⟨lower, upper⟩
    have set := every (position * map.granule) otherWhole lower upper
    rw [marksInUse, quotient] at set
    exact set

/-- A new map is regular and has no marks. -/
theorem ofWords_ensures {words granule : Nat} (positive : 0 < granule)
    (whole : words % granule = 0) (counted : words < wordLimit) :
    Ensures excuse (ofWords words granule) fun map =>
      map.Regular ∧ map.words = words ∧ map.granule = granule ∧
        ∀ offset, map.marksStart offset = false ∧ map.marksInUse offset = false := by
  unfold ofWords
  rw [dif_pos positive, if_pos whole]
  refine ⟨⟨whole, counted, ?_, ?_⟩, rfl, rfl, fun offset => ⟨?_, ?_⟩⟩
  · exact Layer.le_room_clear (words / granule)
  · exact Layer.le_room_clear (words / granule)
  · exact Layer.bit_clear _ _
  · exact Layer.bit_clear _ _

end CollectorMemory.Occupancy
