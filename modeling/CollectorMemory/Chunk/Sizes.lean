import CollectorMemory.Chunk.Kind
import CollectorMemory.Count

/-!
# Chunk sizes

Each space fixes three chunk sizes, each a proper multiple of the one before it and the smallest
larger than a header. Any larger multiple of the smallest size is a humongous size. Chunks of a
fixed size are aligned to their size, humongous chunks to the smallest size.
-/

namespace CollectorMemory

/-- The three fixed chunk sizes of a space, in words. -/
structure ChunkSizes where
  /-- The size of a specialized chunk; all other sizes are multiples of it. -/
  specialized : Nat
  /-- The size of a small chunk. -/
  small : Nat
  /-- The size of a medium chunk. -/
  medium : Nat
  header_lt : Header.words < specialized
  specialized_lt : specialized < small
  small_lt : small < medium
  small_nested : small % specialized = 0
  medium_nested : medium % small = 0
deriving DecidableEq

namespace ChunkSizes

/-- Sizes from three numbers of words, if they are in order and nested. -/
def ofWords (specialized small medium : Nat) : Except Fault ChunkSizes :=
  if header : Header.words < specialized then
    if increasing : specialized < small ∧ small < medium then
      if nested : small % specialized = 0 ∧ medium % small = 0 then
        .ok {
          specialized, small, medium
          header_lt := header
          specialized_lt := increasing.1
          small_lt := increasing.2
          small_nested := nested.1
          medium_nested := nested.2 }
      else .error (.sizes (.notNested specialized small medium))
    else .error (.sizes (.notIncreasing specialized small medium))
  else .error (.sizes (.specializedTooSmall specialized))

variable (sizes : ChunkSizes)

/-- The size of a kind, which must not be humongous. -/
def fixedSize : Kind → Except Fault Nat
  | .specialized => .ok sizes.specialized
  | .small => .ok sizes.small
  | .medium => .ok sizes.medium
  | .humongous => .error (.sizes .noFixedSize)

/-- Whether a humongous chunk can have the size. -/
def isHumongousSize (size : Nat) : Bool := sizes.medium < size && size % sizes.specialized == 0

/-- Whether some chunk can have the size. -/
def isChunkSize (size : Nat) : Bool :=
  size == sizes.specialized || size == sizes.small || size == sizes.medium
    || sizes.isHumongousSize size

/-- The kind of the chunks of a size. -/
def kindOfSize (size : Nat) : Except Fault Kind :=
  if size = sizes.specialized then .ok .specialized
  else if size = sizes.small then .ok .small
  else if size = sizes.medium then .ok .medium
  else if sizes.isHumongousSize size then .ok .humongous
  else .error (.sizes (.invalidSize size))

/-- What the offset of a chunk of this kind and size must be a multiple of. -/
def alignment (kind : Kind) (size : Nat) : Nat :=
  if kind.isHumongous then sizes.specialized else size

/-- The least chunk size with room for a header and a payload. -/
def sizeForPayload (payload : Nat) : Except Fault Nat := do
  let needed ← Count.add payload Header.words
  if needed ≤ sizes.specialized then return sizes.specialized
  if needed ≤ sizes.small then return sizes.small
  if needed ≤ sizes.medium then return sizes.medium
  let aboveMedium ← Count.add sizes.medium 1
  Count.roundUp (max needed aboveMedium) sizes.specialized

theorem specialized_pos : 0 < sizes.specialized :=
  Nat.lt_of_le_of_lt (Nat.zero_le _) sizes.header_lt

theorem small_pos : 0 < sizes.small := Nat.lt_trans sizes.specialized_pos sizes.specialized_lt

theorem medium_pos : 0 < sizes.medium := Nat.lt_trans sizes.small_pos sizes.small_lt

theorem pos_of_fixedSize {kind : Kind} {size : Nat} (fixed : sizes.fixedSize kind = .ok size) :
    0 < size := by
  cases kind <;> simp only [fixedSize, Except.ok.injEq, reduceCtorEq] at fixed <;> subst fixed
  · exact sizes.specialized_pos
  · exact sizes.small_pos
  · exact sizes.medium_pos

end ChunkSizes

end CollectorMemory
