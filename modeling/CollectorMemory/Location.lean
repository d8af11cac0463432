import CollectorMemory.Text

/-!
# Spaces, nodes and locations

Metadata lives in two spaces. Each space consists of nodes, contiguous ranges of words, and a
location is a word offset inside one node. Nodes and locations are ordered by space, then index,
then offset, which is the order in which a free pool hands chunks out.
-/

namespace CollectorMemory

/-- The two metadata spaces: class metadata is kept apart from all other metadata. -/
inductive Space where
  | nonClass
  | classOnly
deriving DecidableEq

namespace Space

/-- Whether the space holds class metadata. -/
def isClass : Space → Bool
  | nonClass => false
  | classOnly => true

/-- The space with the given answer to `isClass`. -/
def ofIsClass : Bool → Space
  | false => nonClass
  | true => classOnly

/-- The name of the space in messages. -/
def name : Space → String
  | nonClass => "NonClass"
  | classOnly => "Class"

/-- The name of the free pool of a space, by whether it holds class metadata. -/
def poolName : Bool → String
  | false => "metaspace"
  | true => "class space"

/-- The non-class space comes first. -/
def rank : Space → Nat
  | nonClass => 0
  | classOnly => 1

@[simp] theorem isClass_ofIsClass (flag : Bool) : (ofIsClass flag).isClass = flag := by
  cases flag <;> rfl

@[simp] theorem ofIsClass_isClass (space : Space) : ofIsClass space.isClass = space := by
  cases space <;> rfl

end Space

/-- The handle of a node: its space and the number it was given when it was reserved. -/
structure NodeId where
  /-- The space that the node belongs to. -/
  space : Space
  /-- The number of the node in its space. -/
  index : Nat
deriving DecidableEq

namespace NodeId

/-- Nodes are ordered by space, then by index. -/
def order (left right : NodeId) : Ordering :=
  (compare left.space.rank right.space.rank).then (compare left.index right.index)

/-- The text of a node handle. -/
def text (id : NodeId) : String :=
  (if id.space.isClass then "cvsn#" else "vsn#") ++ toString id.index

end NodeId

/-- A word of a node, by its offset from the bottom of the node. -/
structure Location where
  /-- The node that the word belongs to. -/
  node : NodeId
  /-- The distance in words from the bottom of the node. -/
  offset : Nat
deriving DecidableEq

namespace Location

/-- Locations are ordered by node, then by offset. -/
def order (left right : Location) : Ordering :=
  (left.node.order right.node).then (compare left.offset right.offset)

/-- The text of a location. -/
def text (place : Location) : String := place.node.text ++ "+" ++ Text.hex place.offset

end Location

end CollectorMemory
