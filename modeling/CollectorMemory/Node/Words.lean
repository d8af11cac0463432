import CollectorMemory.Chunk.Basic
import CollectorMemory.Fault

/-!
# The words of a node

The committed memory of a node is an array of words. Reads and writes take a range, and a range that
does not lie in the array is a fault that leaves nothing written.
-/

namespace CollectorMemory

/-- Committed memory, by offset from the bottom of the node. -/
abbrev Words := Array UInt64

namespace Words

/-- The word that fills the payload of a freshly carved chunk when nodes are audited. -/
def uninitialized : UInt64 := 0xf7f7f7f7f7f7f7f7

/-- The word that fills the payload of a returned chunk when pools are audited. -/
def abandoned : UInt64 := 0xfbfbfbfbfbfbfbfb

variable (words : Words)

/-- The word at an offset. -/
def wordAt (offset : Nat) : Except Fault UInt64 :=
  if inside : offset < words.size then .ok words[offset] else .error .outOfRange

/-- The header at an offset. -/
def headerAt (offset : Nat) : Except Fault Header := do
  return Header.decode (← words.wordAt offset) (← words.wordAt (offset + 1))

/-- The words in `[offset, offset + length)`. -/
def slice (offset length : Nat) : Except Fault (List UInt64) := do
  require (offset + length ≤ words.size) .outOfRange
  return (words.extract offset (offset + length)).toList

/-- The memory with the given words from an offset on. -/
def store (words : Words) (offset : Nat) : List UInt64 → Words
  | [] => words
  | word :: rest => store (words.setIfInBounds offset word) (offset + 1) rest

/-- Write words from an offset on. -/
def write (offset : Nat) (data : List UInt64) : Except Fault Words := do
  require (offset + data.length ≤ words.size) .outOfRange
  return words.store offset data

/-- Write one word over `[offset, offset + length)`. -/
def fill (offset length : Nat) (word : UInt64) : Except Fault Words :=
  words.write offset (List.replicate length word)

/-- Write one word over `[offset, offset + length)` where this is asked for. -/
def fillIf (asked : Bool) (offset length : Nat) (word : UInt64) : Except Fault Words :=
  if asked then words.fill offset length word else .ok words

/-- Write the header of a chunk where it belongs. -/
def writeHeader (chunk : Chunk) : Except Fault Words :=
  words.write chunk.bottom [chunk.header.encode.1, chunk.header.encode.2]

/-- Overwrite the sentinel at an offset, where the chunk became part of another one. -/
def absorbHeader (offset : Nat) : Except Fault Words := words.write offset [Header.absorbed]

end Words

end CollectorMemory
