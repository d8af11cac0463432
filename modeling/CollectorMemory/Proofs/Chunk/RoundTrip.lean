import CollectorMemory.Proofs.Chunk.Codec

/-!
# Headers and pairs of words

Reading a header takes every bit of its two words apart into exactly one field, so writing what was
read restores the words, whatever they are. In the other direction a header has more room in its
fields than the words have: it is read back as it was written exactly if its codes fit three bits and
its size the 56 bits above them. The header of a chunk always has such codes, and its size fits unless
the chunk is longer than any memory.
-/

namespace CollectorMemory

variable {first second word : UInt64} {header : Header} {chunk : Chunk}

namespace Header

/-- One bit of a word, as a number. -/
theorem toNat_oneBit (word places : UInt64) (few : places.toNat < 64) :
    ((word >>> places) &&& 1 != 0).toNat = word.toNat / 2 ^ places.toNat % 2 := by
  rcases Nat.mod_two_eq_zero_or_one (word.toNat / 2 ^ places.toNat) with clear | set
  · rw [oneBit_eq word places few false clear, clear]
    rfl
  · rw [oneBit_eq word places few true set, set]
    rfl

/-- The kind that is read is in bits 0 to 2. -/
theorem toNat_kindCode_decode : (decode first second).kindCode.toNat = second.toNat % 8 := by
  have read := toNat_threeBits second 0 (by decide)
  rw [UInt64.shiftRight_zero] at read
  change _ = second.toNat / 1 % 8 at read
  rw [Nat.div_one] at read
  exact read

/-- The space that is read is in bit 3. -/
theorem toNat_isClass_decode : (decode first second).isClass.toNat = second.toNat / 8 % 2 :=
  toNat_oneBit second 3 (by decide)

/-- The origin that is read is in bits 4 to 6. -/
theorem toNat_originCode_decode : (decode first second).originCode.toNat = second.toNat / 16 % 8 :=
  toNat_threeBits second 4 (by decide)

/-- The free flag that is read is in bit 7. -/
theorem toNat_isFree_decode : (decode first second).isFree.toNat = second.toNat / 128 % 2 :=
  toNat_oneBit second 7 (by decide)

/-- The size that is read is in the bits from 8 on. -/
theorem toNat_size_decode : (decode first second).size.toNat = second.toNat / 256 := by
  unfold decode
  rw [UInt64.toNat_shiftRight, Nat.shiftRight_eq_div_pow]
  rfl

/-- What is read always has codes and a size that fit their bits. -/
theorem decode_fits (first second : UInt64) : (decode first second).kindCode.toNat < 8 ∧
    (decode first second).originCode.toNat < 8 ∧ (decode first second).size.toNat < sizeLimit := by
  have isWord : second.toNat < 2 ^ 64 := second.toNat_lt
  rw [toNat_kindCode_decode, toNat_originCode_decode, toNat_size_decode]
  unfold sizeLimit
  omega

/-- Two words that are read and written again are the same words. -/
theorem encode_decode (first second : UInt64) :
    (decode first second).encode = (first, second) := by
  obtain ⟨kind, origin, short⟩ := decode_fits first second
  have whole := toNat_packed (decode first second) kind origin short
  rw [toNat_kindCode_decode, toNat_isClass_decode, toNat_originCode_decode, toNat_isFree_decode,
    toNat_size_decode] at whole
  have same : (decode first second).packed = second := by
    apply UInt64.toNat_inj.mp
    omega
  exact congrArg (first, ·) same

/-- A header is read back as it was written exactly if its codes and its size fit their bits. -/
theorem decode_encode_eq_self_iff :
    decode header.encode.1 header.encode.2 = header ↔
      header.kindCode.toNat < 8 ∧ header.originCode.toNat < 8 ∧ header.size.toNat < sizeLimit := by
  constructor
  · intro same
    have fits := decode_fits header.encode.1 header.encode.2
    rw [same] at fits
    exact fits
  · rintro ⟨kind, origin, short⟩
    exact decode_encode header kind origin short

end Header

/-- The header of a chunk that is not too long is read back as it was written. -/
theorem Chunk.decode_header (short : chunk.size < Header.sizeLimit) :
    Header.decode chunk.header.encode.1 chunk.header.encode.2 = chunk.header ∧
      chunk.header.size.toNat = chunk.size := by
  have size : chunk.header.size.toNat = chunk.size :=
    UInt64.toNat_ofNat_of_lt (Nat.lt_trans short (by decide))
  refine ⟨?_, size⟩
  rw [Header.decode_encode_eq_self_iff, size]
  exact ⟨UInt8.lt_iff_toNat_lt.mp chunk.kind.code_lt,
    UInt8.lt_iff_toNat_lt.mp chunk.origin.code_lt, short⟩

/-- The header of a chunk names its kind. -/
theorem Chunk.kind?_header : chunk.header.kind? = some chunk.kind := Kind.ofCode?_code chunk.kind

/-- The header of a chunk names its origin. -/
theorem Chunk.origin?_header : chunk.header.origin? = some chunk.origin := by
  have valid : Origin.isValid chunk.origin.code = true := by
    cases chunk.origin <;> rfl
  unfold Header.origin?
  rw [show chunk.header.originCode = chunk.origin.code from rfl, if_pos valid]
  exact Origin.ofCode?_code chunk.origin

namespace Header

/-- Words that are read and written again are the same, a header that is written and read again is
the same exactly if its codes are below eight and its size below the limit, and from the header of a
chunk below that limit all its fields are read back. -/
theorem codec_exact :
    (∀ first second : UInt64, (decode first second).encode = (first, second)) ∧
    (∀ header : Header, decode header.encode.1 header.encode.2 = header ↔
      header.kindCode.toNat < 8 ∧ header.originCode.toNat < 8 ∧ header.size.toNat < 2 ^ 56) ∧
    ∀ chunk : Chunk, chunk.size < 2 ^ 56 →
      let read := decode chunk.header.encode.1 chunk.header.encode.2
      read.sentinel = chunk.sentinel ∧ read.kind? = some chunk.kind ∧
        read.isClass = chunk.isClass ∧ read.origin? = some chunk.origin ∧
        read.isFree = chunk.isFree ∧ read.size.toNat = chunk.size := by
  refine ⟨encode_decode, fun header => decode_encode_eq_self_iff, ?_⟩
  intro chunk short
  obtain ⟨same, size⟩ := Chunk.decode_header short
  rw [same]
  exact ⟨rfl, Chunk.kind?_header, rfl, Chunk.origin?_header, rfl, size⟩

/-- The longest chunk whose header is read back, with the last kind and both flags set. -/
theorem codec_exact_longest :
    let chunk : Chunk := {
      container := ⟨.classOnly, 0⟩, bottom := 0, size := 2 ^ 56 - 1, top := Header.words
      kind := .humongous, isClass := true, sentinel := alive, origin := .split, useCount := 0
      isFree := true }
    let read := decode chunk.header.encode.1 chunk.header.encode.2
    chunk.size < 2 ^ 56 ∧ read.sentinel = chunk.sentinel ∧ read.kind? = some chunk.kind ∧
      read.isClass = chunk.isClass ∧ read.origin? = some chunk.origin ∧
      read.isFree = chunk.isFree ∧ read.size.toNat = chunk.size := by
  intro chunk read
  have short : chunk.size < 2 ^ 56 := by decide
  exact ⟨short, codec_exact.2.2 chunk short⟩

end Header

end CollectorMemory
