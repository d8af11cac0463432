import CollectorMemory.Node.Basic
import CollectorMemory.Options.Basic

/-!
# Node lists

The nodes of one space, oldest first. Nodes are numbered in the order in which they are reserved, so
the list is sorted by index and a node is looked up by binary search. Chunks are carved from the
last node, the current one. The class space has a single node; any other space reserves a new node
when the current one is used up, within a limit on the words reserved by all of them.
-/

namespace CollectorMemory

/-- The nodes of one space. -/
structure NodeList where
  /-- The space that the nodes belong to. -/
  space : Space
  /-- The chunk sizes of the space. -/
  sizes : ChunkSizes
  /-- Whether new nodes are audited. -/
  audited : Bool
  /-- The nodes, oldest first. -/
  nodes : Array Node
  /-- The index of the next node. -/
  nextIndex : Nat
  /-- The least number of words of a new node. -/
  nodeWords : Nat
  /-- The number of words that all nodes together may reserve. -/
  limit : Nat
  /-- Nodes commit multiples of this many words. -/
  granule : Nat

namespace NodeList

/-- The position of the node with an index among the nodes in `[low, high)`, by binary search. -/
def search (nodes : Array Node) (index low high : Nat) : Option Nat :=
  if low < high then
    let middle := low + (high - low) / 2
    match nodes[middle]? with
    | none => none
    | some node =>
      if node.id.index = index then some middle
      else if node.id.index < index then search nodes index (middle + 1) high
      else search nodes index low middle
  else none
termination_by high - low

variable (list : NodeList)

/-- Whether the list belongs to the class space. -/
def isClass : Bool := list.space.isClass

/-- The position of the node with a handle. -/
def position? (id : NodeId) : Option Nat :=
  if id.space = list.space then search list.nodes id.index 0 list.nodes.size else none

/-- The node with a handle. -/
def node? (id : NodeId) : Option Node := (list.position? id).bind (list.nodes[·]?)

/-- The list with the node of the same handle replaced. -/
def withNode (node : Node) : NodeList :=
  match list.position? node.id with
  | none => list
  | some position => { list with nodes := list.nodes.setIfInBounds position node }

/-- The node that chunks are carved from. -/
def current? : Option Node := list.nodes.back?

/-- The number of nodes. -/
def size : Nat := list.nodes.size

/-- The number of words reserved by all nodes. -/
def reservedWords : Except Fault Nat := Count.sum (list.nodes.toList.map Node.reserved)

/-- The number of words committed in all nodes. -/
def committedWords : Except Fault Nat := Count.sum (list.nodes.toList.map Node.committed)

/-- Whether a location lies in a chunk of one of the nodes. -/
def contains (place : Location) : Bool :=
  (list.node? place.node).any fun node => node.contains place

end NodeList

end CollectorMemory
