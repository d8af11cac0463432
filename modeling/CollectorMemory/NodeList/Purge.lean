import CollectorMemory.Node.Audit
import CollectorMemory.NodeList.Basic
import CollectorMemory.Pool.Basic

/-!
# Purging and checking a node list

Nodes without a chunk in use are given up together with their free chunks, except for the current
node.
-/

namespace CollectorMemory.NodeList

/-- Give up the nodes without a chunk in use that do not have the handle `keep`; the results are the
nodes that stay, the pool, and how many were given up. -/
def purgeNodes (keep : Option NodeId) (pool : Pool) : List Node → Run (List Node × Pool × Nat)
  | [] => return ([], pool, 0)
  | node :: rest => do
    if node.chunksInUse = 0 ∧ some node.id ≠ keep then
      Run.note (.purgingNode node.id node.committed node.top)
      let (pool, _) ← pool.dropNode node.id
      let (nodes, pool, purged) ← purgeNodes keep pool rest
      return (nodes, pool, purged + 1)
    else
      let (nodes, pool, purged) ← purgeNodes keep pool rest
      return (node :: nodes, pool, purged)

/-- Give up the nodes without a chunk in use, except for the current one, with their free chunks;
the last result is how many were given up. -/
def purge (list : NodeList) (pool : Pool) : Run (NodeList × Pool × Nat) := do
  let keep := list.current?.map Node.id
  let (nodes, pool, purged) ← purgeNodes keep pool list.nodes.toList
  return ({ list with nodes := nodes.toArray }, pool, purged)

/-- Check all nodes and the limit on reserved words. -/
def audit (list : NodeList) : Except Fault Unit := do
  list.nodes.toList.forM Node.audit
  let reserved ← list.reservedWords
  require (reserved ≤ list.limit) (.allocator (.overLimit list.space reserved list.limit))

end CollectorMemory.NodeList
