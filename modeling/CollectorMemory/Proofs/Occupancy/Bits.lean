import CollectorMemory.Occupancy.Layer
import CollectorMemory.Proofs.Ensures

/-!
# Bits of a packed row

`Layer.bit` reads a row as a plain function from positions to bits. Every operation on the packed
bytes is described by what it does to that function: a write changes the bits of its range and no
others, a search finds what is there, and both succeed on every range inside of the row.
-/

namespace CollectorMemory.Layer

variable {excuse : Prop} (layer : Layer)

/-- The number of bits that the bytes of the row have room for. -/
def room : Nat := 8 * layer.bytes.size

/-- The bit at a position, clear outside of the row. -/
def bit (position : Nat) : Bool :=
  (layer.bytes.getD (position / 8) 0).toBitVec.getLsbD (position % 8)

/-- The mask of a position is the power of two of its place in the byte. -/
theorem toBitVec_mask (position : Nat) :
    (mask position).toBitVec = BitVec.twoPow 8 (position % 8) := by
  have places : ∀ place < 8, ((1 : UInt8) <<< UInt8.ofNat place).toBitVec =
      BitVec.twoPow 8 place := by decide
  exact places (position % 8) (Nat.mod_lt _ (by decide))

/-- A byte has a bit in common with a mask exactly if the bit of the mask is set. -/
theorem and_mask_ne_zero (byte : UInt8) (position : Nat) :
    (byte &&& mask position != 0) = byte.toBitVec.getLsbD (position % 8) := by
  have place : position % 8 < 8 := Nat.mod_lt _ (by decide)
  rw [bne]
  cases found : byte.toBitVec.getLsbD (position % 8) with
  | true =>
    rw [Bool.not_eq_true', beq_eq_false_iff_ne]
    intro zero
    have read := congrArg (fun value : UInt8 => value.toBitVec.getLsbD (position % 8)) zero
    rw [BitVec.getLsbD_eq_getElem place] at found
    simp [toBitVec_mask, place, found] at read
  | false =>
    rw [Bool.not_eq_false', beq_iff_eq]
    apply UInt8.toBitVec_inj.mp
    apply BitVec.eq_of_getLsbD_eq
    intro index _
    by_cases same : position % 8 = index
    · subst same
      simp [found]
    · simp [toBitVec_mask, BitVec.getLsbD_twoPow, same]

/-- Rows of the same room are equal if all of their bits are. -/
theorem eq_of_bits {left right : Layer} (room : left.room = right.room)
    (bits : ∀ position, left.bit position = right.bit position) : left = right := by
  obtain ⟨leftBytes⟩ := left
  obtain ⟨rightBytes⟩ := right
  unfold Layer.room at room
  have size : leftBytes.size = rightBytes.size := by
    change 8 * leftBytes.size = 8 * rightBytes.size at room
    omega
  rw [mk.injEq]
  apply Array.ext size
  intro index leftInside rightInside
  apply UInt8.toBitVec_inj.mp
  apply BitVec.eq_of_getLsbD_eq
  intro place inByte
  have same := bits (8 * index + place)
  have quotient : (8 * index + place) / 8 = index := by omega
  have remainder : (8 * index + place) % 8 = place := by omega
  unfold bit at same
  rw [quotient, remainder] at same
  simpa [Array.getD, leftInside, rightInside] using same

/-- Clearing a row leaves no bit set. -/
theorem bit_clear (bits position : Nat) : (clear bits).bit position = false := by
  unfold bit clear
  by_cases inside : position / 8 < bytesFor bits <;> simp [Array.getD, inside]

/-- A row has room for the bits it was made for. -/
theorem le_room_clear (bits : Nat) : bits ≤ (clear bits).room := by
  simp only [room, clear, bytesFor, Array.size_replicate]
  omega

/-- Reading a bit inside of the row. -/
theorem get_ensures {position : Nat} (inside : position < layer.room) :
    Ensures excuse (layer.get position) fun value => value = layer.bit position := by
  have byteInside : position / 8 < layer.bytes.size := by
    unfold room at inside
    omega
  have read : layer.byteAt (position / 8) = .ok (layer.bytes.getD (position / 8) 0) := by
    simp [byteAt, Array.getD, byteInside]
  rw [get, read]
  exact and_mask_ne_zero _ _

/-- A row after one byte of it was replaced. -/
theorem setByte_ensures {index : Nat} {byte : UInt8} (inside : index < layer.bytes.size) :
    Ensures excuse (layer.setByte index byte) fun after =>
      after.room = layer.room ∧ ∀ other, after.bit other =
        if other / 8 = index then byte.toBitVec.getLsbD (other % 8) else layer.bit other := by
  unfold setByte
  rw [dif_pos inside]
  refine ⟨by simp [room], ?_⟩
  intro other
  unfold bit
  by_cases same : other / 8 = index
  · simp [Array.getD, same, inside]
  · have differs : index ≠ other / 8 := fun equal => same equal.symm
    by_cases otherInside : other / 8 < layer.bytes.size
    · simp [Array.getD, otherInside, same, Array.getElem_set_ne inside otherInside differs]
    · simp [Array.getD, otherInside, same]

/-- Writing one bit changes that bit and no other. -/
theorem set_ensures {position : Nat} {value : Bool} (inside : position < layer.room) :
    Ensures excuse (layer.set position value) fun after =>
      after.room = layer.room ∧
        ∀ other, after.bit other = if other = position then value else layer.bit other := by
  have byteInside : position / 8 < layer.bytes.size := by
    unfold room at inside
    omega
  have read : layer.byteAt (position / 8) = .ok (layer.bytes.getD (position / 8) 0) := by
    simp [byteAt, Array.getD, byteInside]
  rw [set, read]
  apply (layer.setByte_ensures byteInside).mono
  rintro after ⟨sameRoom, bits⟩
  refine ⟨sameRoom, ?_⟩
  intro other
  have place : other % 8 < 8 := Nat.mod_lt _ (by decide)
  rw [bits other]
  by_cases sameByte : other / 8 = position / 8
  · rw [if_pos sameByte]
    by_cases same : other = position
    · subst same
      cases value <;> simp [toBitVec_mask, place]
    · have differs : position % 8 ≠ other % 8 := by omega
      have flipped : ¬other % 8 = position % 8 := fun equal => differs equal.symm
      rw [if_neg same]
      cases value <;> simp [toBitVec_mask, BitVec.getElem_twoPow, place, flipped, bit, sameByte]
  · have differs : other ≠ position := fun equal => sameByte (by rw [equal])
    rw [if_neg sameByte, if_neg differs]

/-- Writing bits one by one changes the bits of the range and no others. -/
theorem setEach_ensures {start stop : Nat} {value : Bool} (inside : stop ≤ layer.room) :
    Ensures excuse (layer.setEach start stop value) fun after =>
      after.room = layer.room ∧ ∀ other, after.bit other =
        if start ≤ other ∧ other < stop then value else layer.bit other := by
  fun_induction setEach layer start stop value with
  | case1 layer start more ih =>
    apply Ensures.bind (layer.set_ensures (by omega))
    rintro next ⟨nextRoom, nextBits⟩
    apply (ih next (by omega)).mono
    rintro after ⟨afterRoom, afterBits⟩
    refine ⟨by omega, ?_⟩
    intro other
    rw [afterBits other, nextBits other]
    by_cases same : other = start
    · subst same
      simp [more]
    · by_cases within : start ≤ other ∧ other < stop
      · rw [if_pos within, if_pos (by omega)]
      · rw [if_neg within, if_neg (by omega), if_neg same]
  | case2 layer start done =>
    refine ⟨rfl, ?_⟩
    intro other
    rw [if_neg (by omega)]

/-- All bits of a full byte have its value. -/
theorem getLsbD_fullByte (value : Bool) (place : Nat) (inside : place < 8) :
    (fullByte value).toBitVec.getLsbD place = value := by
  have places : ∀ value, ∀ place < 8, (fullByte value).toBitVec.getLsbD place = value := by decide
  exact places value place inside

/-- Writing whole bytes changes the bits of the bytes and no others. -/
theorem setBytes_ensures {first last : Nat} {value : Bool} (inside : last ≤ layer.bytes.size) :
    Ensures excuse (layer.setBytes first last value) fun after =>
      after.room = layer.room ∧ ∀ other, after.bit other =
        if first ≤ other / 8 ∧ other / 8 < last then value else layer.bit other := by
  fun_induction setBytes layer first last value with
  | case1 layer first more ih =>
    apply Ensures.bind (layer.setByte_ensures (by omega))
    rintro next ⟨nextRoom, nextBits⟩
    have nextInside : last ≤ next.bytes.size := by
      unfold room at nextRoom
      omega
    apply (ih next nextInside).mono
    rintro after ⟨afterRoom, afterBits⟩
    refine ⟨by omega, ?_⟩
    intro other
    have place : other % 8 < 8 := Nat.mod_lt _ (by decide)
    rw [afterBits other, nextBits other]
    by_cases same : other / 8 = first
    · rw [if_neg (by omega), if_pos same, if_pos (by omega), getLsbD_fullByte value _ place]
    · by_cases within : first ≤ other / 8 ∧ other / 8 < last
      · rw [if_pos within, if_pos (by omega)]
      · rw [if_neg within, if_neg (by omega), if_neg same]
  | case2 layer first done =>
    refine ⟨rfl, ?_⟩
    intro other
    rw [if_neg (by omega)]

/-- Writing a range, in three parts, changes the bits of the range and no others. -/
theorem setRange_ensures {start stop : Nat} {value : Bool} (ordered : start ≤ stop)
    (inside : stop ≤ layer.room) :
    Ensures excuse (layer.setRange start stop value) fun after =>
      after.room = layer.room ∧ ∀ other, after.bit other =
        if start ≤ other ∧ other < stop then value else layer.bit other := by
  have head : start ≤ wholeFrom start stop ∧ wholeFrom start stop ≤ stop := by
    unfold wholeFrom
    omega
  have body : wholeFrom start stop ≤ wholeTo start stop ∧ wholeTo start stop ≤ stop := by
    unfold wholeTo
    omega
  -- The middle part is empty, or it starts and ends at byte bounds.
  have bounds : wholeFrom start stop = wholeTo start stop ∨
      wholeFrom start stop % 8 = 0 ∧ wholeTo start stop % 8 = 0 := by
    unfold wholeTo wholeFrom
    omega
  unfold setRange
  apply Ensures.bind (layer.setEach_ensures (by omega))
  rintro one ⟨oneRoom, oneBits⟩
  apply Ensures.bind (one.setBytes_ensures (by unfold room at oneRoom inside; omega))
  rintro two ⟨twoRoom, twoBits⟩
  apply (two.setEach_ensures (by omega)).mono
  rintro three ⟨threeRoom, threeBits⟩
  refine ⟨by omega, ?_⟩
  intro other
  rw [threeBits other, twoBits other, oneBits other]
  by_cases tail : wholeTo start stop ≤ other ∧ other < stop
  · rw [if_pos tail, if_pos (by omega)]
  · rw [if_neg tail]
    by_cases middle :
        wholeFrom start stop / 8 ≤ other / 8 ∧ other / 8 < wholeTo start stop / 8
    · rw [if_pos middle, if_pos (by omega)]
    · rw [if_neg middle]
      by_cases front : start ≤ other ∧ other < wholeFrom start stop
      · rw [if_pos front, if_pos (by omega)]
      · rw [if_neg front, if_neg (by omega)]

/-- Trying bits one by one finds a set bit exactly if the range has one. -/
theorem anyEach_ensures {start stop : Nat} (inside : stop ≤ layer.room) :
    Ensures excuse (layer.anyEach start stop) fun found =>
      found = true ↔ ∃ position, start ≤ position ∧ position < stop ∧ layer.bit position := by
  fun_induction anyEach layer start stop with
  | case1 start more ih =>
    apply Ensures.bind (layer.get_ensures (by omega))
    rintro value rfl
    cases first : layer.bit start with
    | true => exact ⟨fun _ => ⟨start, Nat.le_refl _, more, first⟩, fun _ => rfl⟩
    | false =>
      apply ih.mono
      intro found later
      rw [later]
      constructor
      · rintro ⟨position, lower, upper, set⟩
        exact ⟨position, by omega, upper, set⟩
      · rintro ⟨position, lower, upper, set⟩
        have differs : position ≠ start := by
          rintro rfl
          rw [first] at set
          exact Bool.false_ne_true set
        exact ⟨position, by omega, upper, set⟩
  | case2 start done =>
    refine ⟨fun absent => absurd absent Bool.false_ne_true, ?_⟩
    rintro ⟨position, lower, upper, _⟩
    omega

/-- A byte is not zero exactly if one of its bits is set. -/
theorem ne_zero_iff_exists_bit (byte : UInt8) :
    byte ≠ 0 ↔ ∃ place < 8, byte.toBitVec.getLsbD place = true := by
  constructor
  · intro nonzero
    apply Classical.byContradiction
    intro none
    apply nonzero
    apply UInt8.toBitVec_inj.mp
    apply BitVec.eq_of_getLsbD_eq
    intro place inside
    cases set : byte.toBitVec.getLsbD place with
    | true => exact absurd ⟨place, inside, set⟩ none
    | false => simp
  · rintro ⟨place, _, set⟩ rfl
    simp at set

/-- Trying whole bytes finds a set bit exactly if the bytes have one. -/
theorem anyByte_ensures {first last : Nat} (inside : last ≤ layer.bytes.size) :
    Ensures excuse (layer.anyByte first last) fun found =>
      found = true ↔ ∃ position, first ≤ position / 8 ∧ position / 8 < last ∧
        layer.bit position := by
  fun_induction anyByte layer first last with
  | case1 first more ih =>
    have read : layer.byteAt first = .ok (layer.bytes.getD first 0) := by
      simp [byteAt, Array.getD, show first < layer.bytes.size by omega]
    rw [read]
    change Ensures excuse (if layer.bytes.getD first 0 != 0 then _ else _) _
    by_cases nonzero : layer.bytes.getD first 0 ≠ 0
    · rw [if_pos (by simpa using nonzero)]
      obtain ⟨place, placeInside, set⟩ := (ne_zero_iff_exists_bit _).mp nonzero
      have quotient : (8 * first + place) / 8 = first := by omega
      have remainder : (8 * first + place) % 8 = place := by omega
      refine ⟨fun _ => ⟨8 * first + place, by omega, by omega, ?_⟩, fun _ => rfl⟩
      rw [bit, quotient, remainder]
      exact set
    · rw [if_neg (by simpa using nonzero)]
      apply ih.mono
      intro found later
      rw [later]
      constructor
      · rintro ⟨position, lower, upper, set⟩
        exact ⟨position, by omega, upper, set⟩
      · rintro ⟨position, lower, upper, set⟩
        have differs : position / 8 ≠ first := by
          intro same
          rw [bit, same] at set
          exact nonzero ((ne_zero_iff_exists_bit _).mpr
            ⟨position % 8, Nat.mod_lt _ (by decide), set⟩)
        exact ⟨position, by omega, upper, set⟩
  | case2 first done =>
    refine ⟨fun absent => absurd absent Bool.false_ne_true, ?_⟩
    rintro ⟨position, lower, upper, _⟩
    omega

/-- Searching a range, in three parts, finds a set bit exactly if the range has one. -/
theorem anySet_ensures {start stop : Nat} (ordered : start ≤ stop) (inside : stop ≤ layer.room) :
    Ensures excuse (layer.anySet start stop) fun found =>
      found = true ↔ ∃ position, start ≤ position ∧ position < stop ∧ layer.bit position := by
  have head : start ≤ wholeFrom start stop ∧ wholeFrom start stop ≤ stop := by
    unfold wholeFrom
    omega
  have body : wholeFrom start stop ≤ wholeTo start stop ∧ wholeTo start stop ≤ stop := by
    unfold wholeTo
    omega
  have bounds : wholeFrom start stop = wholeTo start stop ∨
      wholeFrom start stop % 8 = 0 ∧ wholeTo start stop % 8 = 0 := by
    unfold wholeTo wholeFrom
    omega
  unfold anySet
  apply Ensures.bind (layer.anyEach_ensures (by omega))
  intro front frontFound
  cases front with
  | true =>
    obtain ⟨position, lower, upper, set⟩ := frontFound.mp rfl
    clear frontFound
    exact ⟨fun _ => ⟨position, lower, by omega, set⟩, fun _ => rfl⟩
  | false =>
    apply Ensures.bind (layer.anyByte_ensures (by unfold room at inside; omega))
    intro middle middleFound
    cases middle with
    | true =>
      obtain ⟨position, lower, upper, set⟩ := middleFound.mp rfl
      clear frontFound middleFound
      exact ⟨fun _ => ⟨position, by omega, by omega, set⟩, fun _ => rfl⟩
    | false =>
      apply (layer.anyEach_ensures (by omega)).mono
      intro tail tailFound
      rw [tailFound]
      constructor
      · rintro ⟨position, lower, upper, set⟩
        exact ⟨position, by omega, upper, set⟩
      · rintro ⟨position, lower, upper, set⟩
        -- A set bit in one of the first two parts would have been found there.
        have notFront : ¬position < wholeFrom start stop := fun before =>
          absurd (frontFound.mpr ⟨position, lower, before, set⟩) Bool.false_ne_true
        clear frontFound
        have notMiddle : ¬position < wholeTo start stop := by
          intro before
          have within : wholeFrom start stop / 8 ≤ position / 8 ∧
              position / 8 < wholeTo start stop / 8 := by
            clear middleFound
            omega
          exact absurd (middleFound.mpr ⟨position, within.1, within.2, set⟩) Bool.false_ne_true
        clear middleFound
        exact ⟨position, by omega, upper, set⟩

/-- Trying all bits one by one succeeds exactly if all of them are set. -/
theorem allEach_ensures {start stop : Nat} (inside : stop ≤ layer.room) :
    Ensures excuse (layer.allEach start stop) fun all =>
      all = true ↔ ∀ position, start ≤ position → position < stop → layer.bit position := by
  fun_induction allEach layer start stop with
  | case1 start more ih =>
    apply Ensures.bind (layer.get_ensures (by omega))
    rintro value rfl
    cases first : layer.bit start with
    | true =>
      apply ih.mono
      intro all later
      rw [later]
      constructor
      · intro rest position lower upper
        by_cases same : position = start
        · rw [same]
          exact first
        · exact rest position (by omega) upper
      · intro every position lower upper
        exact every position (by omega) upper
    | false =>
      refine ⟨fun absent => absurd absent Bool.false_ne_true, ?_⟩
      intro every
      have set := every start (Nat.le_refl _) more
      rw [first] at set
      exact set
  | case2 start done =>
    refine ⟨?_, fun _ => rfl⟩
    intro _ position lower upper
    omega

end CollectorMemory.Layer
