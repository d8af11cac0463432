import CollectorMemory.Chunk.Header
import CollectorMemory.Location

/-!
# Chunks

A chunk is a contiguous range of words carved from one node. Its value is a handle, owned by the
free pool or by a user of metadata, and carries a bump pointer: the words from the end of the
header to `top` are handed out. `Chunk.header` is what the first two words of the range should
decode to.
-/

namespace CollectorMemory

/-- A handle of a chunk. -/
structure Chunk where
  /-- The node that the chunk was carved from. -/
  container : NodeId
  /-- The offset of the first word. -/
  bottom : Nat
  /-- The number of words, header included. -/
  size : Nat
  /-- The offset of the first word not handed out. -/
  top : Nat
  /-- The size class. -/
  kind : Kind
  /-- Whether the chunk holds class metadata. -/
  isClass : Bool
  /-- `Header.alive` until the chunk becomes part of another one. -/
  sentinel : UInt64
  /-- How the chunk came about. -/
  origin : Origin
  /-- How often the chunk was taken for use. -/
  useCount : Nat
  /-- Whether the chunk is tagged free. -/
  isFree : Bool
deriving DecidableEq

namespace Chunk

/-- The offset of the first word after the header. -/
def payload (chunk : Chunk) : Nat := chunk.bottom + Header.words

/-- The offset of the first word after the chunk. -/
def stop (chunk : Chunk) : Nat := chunk.bottom + chunk.size

/-- The location of the first word. -/
def place (chunk : Chunk) : Location := ⟨chunk.container, chunk.bottom⟩

/-- The location of the first word after the header. -/
def payloadPlace (chunk : Chunk) : Location := ⟨chunk.container, chunk.payload⟩

/-- The location of the first word not handed out. -/
def topPlace (chunk : Chunk) : Location := ⟨chunk.container, chunk.top⟩

/-- The location of the first word after the chunk. -/
def stopPlace (chunk : Chunk) : Location := ⟨chunk.container, chunk.stop⟩

/-- Whether a location lies in the chunk, below its top. -/
def contains (chunk : Chunk) (place : Location) : Bool :=
  place.node == chunk.container && chunk.bottom ≤ place.offset && place.offset < chunk.top

/-- Whether the chunk is alive. -/
def isAlive (chunk : Chunk) : Bool := chunk.sentinel == Header.alive

/-- The header that belongs in the first two words of the chunk. -/
def header (chunk : Chunk) : Header where
  sentinel := chunk.sentinel
  kindCode := chunk.kind.code
  isClass := chunk.isClass
  originCode := chunk.origin.code
  isFree := chunk.isFree
  size := UInt64.ofNat chunk.size

/-- The chunk after all words handed out are taken back. -/
def emptied (chunk : Chunk) : Chunk := { chunk with top := chunk.payload }

/-- The chunk with another origin. -/
def withOrigin (chunk : Chunk) (origin : Origin) : Chunk := { chunk with origin }

/-- The chunk with another free flag. -/
def withFree (chunk : Chunk) (isFree : Bool) : Chunk := { chunk with isFree }

/-- The text of a chunk. -/
def text (chunk : Chunk) : String :=
  s!"Metachunk {chunk.container.text} [{Text.hex chunk.bottom}, {Text.hex chunk.top}, "
    ++ s!"{Text.hex chunk.stop}) size {chunk.size} type {chunk.kind.name} "
    ++ s!"origin {chunk.origin.name} " ++ (if chunk.isFree then "free" else "in use")

end Chunk

end CollectorMemory
