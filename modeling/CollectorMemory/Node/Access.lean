import CollectorMemory.Node.Basic

/-!
# Access to the words of a node

Words below the top of a node can be read and written by location.
-/

namespace CollectorMemory

namespace Node

variable (node : Node)

/-- Check that `length` words from a location on lie below the top of the node. -/
def checkAccess (place : Location) (length : Nat) : Except Fault Unit := do
  require (place.node == node.id) (.node (.foreignPlace place node.id))
  let stop ← Count.add place.offset length
  require (stop ≤ node.top) (.node (.accessNotCarved length place node.id))

/-- Read one word. -/
def readWord (place : Location) : Except Fault UInt64 := do
  node.checkAccess place 1
  node.words.wordAt place.offset

/-- Read words. -/
def readWords (place : Location) (length : Nat) : Except Fault (List UInt64) := do
  node.checkAccess place length
  node.words.slice place.offset length

/-- Write words. -/
def writeWords (place : Location) (data : List UInt64) : Except Fault Node := do
  node.checkAccess place data.length
  return { node with words := ← node.words.write place.offset data }

/-- Write one word over a number of words. -/
def fillWords (place : Location) (length : Nat) (word : UInt64) : Except Fault Node := do
  node.checkAccess place length
  return { node with words := ← node.words.fill place.offset length word }

/-- Write one word over the payload of a chunk. -/
def fillPayload (chunk : Chunk) (word : UInt64) : Except Fault Node :=
  node.fillWords chunk.payloadPlace (chunk.size - Header.words) word

/-- Write one word over the payload of a chunk where this is asked for. -/
def fillPayloadIf (asked : Bool) (chunk : Chunk) (word : UInt64) : Except Fault Node :=
  if asked then node.fillPayload chunk word else .ok node

end Node

end CollectorMemory
