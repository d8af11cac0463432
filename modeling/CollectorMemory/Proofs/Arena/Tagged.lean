import CollectorMemory.Proofs.Arena.Growth
import CollectorMemory.Proofs.Arena.Purge
import CollectorMemory.Proofs.NodeList.Paired
import CollectorMemory.Proofs.Pool.Tagged

/-!
# Arenas with tagged chunks

The nodes of two lists differ one by one in the tags. Where requests are served with the tags, they are
served without them as well, by the same chunks, and leave the same pool and lists that differ in the
tags again.
-/

namespace CollectorMemory

variable {excuse : Prop} {uses : Nat} {tags : Location → Bool} {list list' : NodeList}
  {pool : Pool} {held : List Chunk} {node node' : Node} {kind target : Kind}
  {size words least preferred suggested : Nat}

/-- Nodes that differ in the tags correspond. -/
theorem Node.Tagged.corresponds : Node.Corresponds (Node.Tagged tags) :=
  ⟨Tagged.id, fun nodes => nodes.alike.reserved, fun nodes => nodes.alike.committed⟩

/-- Two lists whose nodes differ in the tags alone. -/
structure NodeList.Tagged (tags : Location → Bool) (list list' : NodeList) : Prop
    extends list.Paired (Node.Tagged tags) list' where
  /-- New nodes are audited in both lists or in none. -/
  audited : list'.audited = list.audited

/-- Replacing a node changes nothing else of a list. -/
theorem NodeList.audited_withNode (list : NodeList) (node : Node) :
    (list.withNode node).audited = list.audited := by
  unfold withNode
  cases list.position? node.id <;> rfl

/-- Committing words changes nodes alone. -/
theorem NodeList.audited_expandCurrent (list : NodeList) (least preferred : Nat) :
    Ensures True (list.expandCurrent least preferred).outcome fun (_, after) =>
      after.audited = list.audited := by
  unfold expandCurrent
  cases list.current? with
  | none => rfl
  | some node =>
    apply Ensures.bindRun (ensures_excused _)
    intro grown _
    cases grown with
    | none => rfl
    | some node => exact list.audited_withNode node

namespace NodeList.Tagged

/-- Lists that differ in the tags do so still where such nodes are put into them. -/
theorem withNode (lists : list.Tagged tags list') (nodes : node.Tagged tags node') :
    (list.withNode node).Tagged tags (list'.withNode node') where
  toPaired := lists.toPaired.withNode Node.Tagged.corresponds nodes
  audited := by
    rw [audited_withNode, audited_withNode]
    exact lists.audited

/-- Words are committed in the last nodes in lockstep. -/
theorem expandCurrent (lists : list.Tagged tags list') (least preferred : Nat) :
    Lockstep excuse
      (fun (isDone, list) (isDone', list') => isDone' = isDone ∧ list.Tagged tags list')
      (list.expandCurrent least preferred).outcome
      (list'.expandCurrent least preferred).outcome := by
  apply ((lists.toPaired.expandCurrent Node.Tagged.corresponds fun _ _ nodes =>
    nodes.expand least preferred).known (list.audited_expandCurrent least preferred)
    (list'.audited_expandCurrent least preferred)).mono
  intro (isDone, after) (isDone', after') ⟨⟨same, paired⟩, audited, audited'⟩
  exact ⟨same, paired, audited'.trans (lists.audited.trans audited.symm)⟩

/-- The node of a chunk is looked up in lockstep. -/
theorem nodeOf (lists : list.Tagged tags list') (chunk : Chunk) :
    Lockstep excuse (Node.Tagged tags) (Pool.nodeOf list chunk) (Pool.nodeOf list' chunk) :=
  lists.toPaired.nodeOf Node.Tagged.corresponds chunk

/-- A new node is reserved in lockstep where its handle is not tagged. -/
theorem reserve (lists : list.Tagged tags list') (short : list.sizes.medium < Header.sizeLimit)
    (untagged : ∀ offset, tags ⟨⟨list.space, list.nextIndex⟩, offset⟩ = false) (words : Nat) :
    Lockstep excuse (Option.Rel (NodeList.Tagged tags)) (list.reserve words).outcome
      (list'.reserve words).outcome := by
  have reserves : words < wordLimit → Lockstep excuse (Node.Tagged tags)
      (Node.reserve ⟨list.space, list.nextIndex⟩ words list.sizes list.audited).outcome
      (Node.reserve ⟨list.space, list.nextIndex⟩ words list.sizes list'.audited).outcome := by
    intro counted
    have made : Ensures True (Node.reserve ⟨list.space, list.nextIndex⟩ words list.sizes
        list.audited).outcome fun node => node.Tagged tags node := by
      apply (Node.reserve_ensures counted short (absurd trivial)).mono
      intro node ⟨isId, _, _, _, carved, _⟩
      apply carved.tagged_self
      rw [isId]
      exact untagged
    rw [lists.audited]
    revert made
    cases (Node.reserve _ words list.sizes list.audited).outcome with
    | error fault => exact fun _ => Or.inr rfl
    | ok node => exact fun made => made
  apply (lists.toPaired.reserve Node.Tagged.corresponds reserves).mono
  intro found found' both
  cases both with
  | none => exact Option.Rel.none
  | some both =>
    obtain ⟨paired, audited, audited'⟩ := both
    exact Option.Rel.some ⟨paired, audited'.trans (lists.audited.trans audited.symm)⟩

end NodeList.Tagged

/-- What taking a chunk gives beside what it gives with tags. -/
def TakenBeside (tags : Location → Bool) :
    Option (Pool × NodeList × Chunk) → Option (Pool × NodeList × Chunk) → Prop :=
  Option.Rel fun (pool, list, chunk) (pool', list', chunk') =>
    pool' = pool ∧ list.Tagged tags list' ∧ chunk' = chunk

/-- The pool that pieces are put into does not depend on the node that they are checked against. -/
theorem Pool.pushPieces_agree (pool : Pool) (node node' : Node) (pieces : List Chunk) :
    Lockstep True (fun placed placed' => placed' = placed) (pool.pushPieces node pieces)
      (pool.pushPieces node' pieces) := by
  induction pieces generalizing pool with
  | nil => rfl
  | cons head rest ih =>
    unfold Pool.pushPieces
    apply Lockstep.bind (lockstep_checks _ _)
    intro _ _ _
    exact ih (pool.push head)

/-- A larger chunk is split in lockstep. -/
theorem Arena.Stocked.splitLarger_tagged (stocked : Arena.Stocked uses ⟨list, pool⟩ held)
    (lists : list.Tagged tags list') (fixed : list.sizes.fixedSize target = .ok size) :
    Lockstep True
      (Option.Rel fun (pool, list) (pool', list') => pool' = pool ∧ list.Tagged tags list')
      (pool.splitLarger list target).outcome (pool.splitLarger list' target).outcome := by
  have filed : pool.Filed := stocked.poolSound.filed
  unfold Pool.splitLarger
  cases found : pool.firstOf? target.above with
  | none => exact Option.Rel.none
  | some result =>
    obtain ⟨rest, larger⟩ := result
    obtain ⟨without, isAbove⟩ := Pool.firstOf?_eq_some filed found
    obtain ⟨notHumongous, below⟩ := Kind.of_mem_above isAbove
    have inPool : larger ∈ pool.chunks := without.perm.mem_iff.mpr List.mem_cons_self
    obtain ⟨node, inList, isNode⟩ := stocked.live larger (List.mem_append_left held inPool)
    obtain ⟨row, stock⟩ := stocked.stock node inList
    have nodeSizes : node.sizes = list.sizes := stocked.nodeSizes node inList
    have isFree : larger.isFree = true := (stock.poolSound.holds larger inPool).free
    have inRow := stock.mem_row (List.mem_append_left held inPool) isNode.symm
    apply lockstep_note
    apply Lockstep.bindRun ((lists.nodeOf larger).known
      (nodeOf_ensures stocked.ordered inList isNode.symm) (ensures_excused _))
    intro _ node' ⟨nodes, same, _⟩
    cases same
    apply Lockstep.bindRun ((nodes.as stock.carved).split inRow isFree notHumongous below
      (by rw [nodeSizes]; exact fixed))
    intro (after, first, pieces) (after', first', pieces') ⟨nodesAfter, same⟩
    cases same
    apply Lockstep.bindRun (lockstep_checks _ _)
    intro _ _ _
    apply lockstep_sameRun
    intro count _
    apply Lockstep.bindRun (Pool.pushPieces_agree _ after after' pieces)
    intro placed placed' same
    cases same
    exact Option.Rel.some ⟨rfl, lists.withNode nodesAfter⟩

/-- A free chunk is selected in lockstep. -/
theorem Arena.Stocked.select_tagged (stocked : Arena.Stocked uses ⟨list, pool⟩ held)
    (lists : list.Tagged tags list') (size : Nat) :
    Lockstep True (TakenBeside tags) (pool.select list size).outcome
      (pool.select list' size).outcome := by
  unfold Pool.select
  apply lockstep_sameRun
  intro kind isKind
  rw [Run.outcome_liftM, ChunkSizes.kindOfSize_eq_ok_iff] at isKind
  by_cases humongous : kind.isHumongous = true
  · rw [if_pos humongous, if_pos humongous]
    cases takeFirst? (fun chunk => decide (size ≤ chunk.size)) pool.humongous with
    | none => exact Option.Rel.none
    | some taken => exact Option.Rel.some ⟨rfl, lists, rfl⟩
  · rw [if_neg humongous, if_neg humongous]
    have poolSizes : pool.sizes = list.sizes := stocked.poolSizes
    have fixed : list.sizes.fixedSize kind = .ok size := by
      rw [← poolSizes]
      apply isKind.fixedSize
      rintro rfl
      exact humongous rfl
    cases pool.firstOf? [kind] with
    | some found => exact Option.Rel.some ⟨rfl, lists, rfl⟩
    | none =>
      apply Lockstep.bindRun (stocked.splitLarger_tagged lists fixed)
      intro split split' both
      cases both with
      | none => exact Option.Rel.none
      | @some placed placed' both =>
        obtain ⟨rest, list⟩ := placed
        obtain ⟨rest', list'⟩ := placed'
        obtain ⟨samePool, lists⟩ := both
        cases samePool
        change Option.Rel _ ((rest.firstOf? [kind]).map _) ((rest.firstOf? [kind]).map _)
        cases rest.firstOf? [kind] with
        | none => exact Option.Rel.none
        | some found => exact Option.Rel.some ⟨rfl, lists, rfl⟩

/-- A free chunk is taken in lockstep. -/
theorem Arena.Stocked.take_tagged (stocked : Arena.Stocked uses ⟨list, pool⟩ held)
    (lists : list.Tagged tags list') (suits : list.sizes.Suits kind size) :
    Lockstep True (TakenBeside tags) (pool.take list size).outcome
      (pool.take list' size).outcome := by
  unfold Pool.take
  apply Lockstep.bindRun ((stocked.select_tagged lists size).known (stocked.select_ensures suits)
    (ensures_excused _))
  intro selected selected' ⟨both, selects, _⟩
  cases both with
  | none => exact Option.Rel.none
  | @some taken taken' both =>
    obtain ⟨rest, after, chunk⟩ := taken
    obtain ⟨rest', after', chunk'⟩ := taken'
    obtain ⟨samePool, lists, sameChunk⟩ := both
    cases samePool
    cases sameChunk
    obtain ⟨front, node, back, found, split, rfl, row, middle, foundRow, area, selected⟩ := selects
    have stock := selected.stock
    have foundId : found.id = node.id := selected.steady.nodeAlike.id
    have container : chunk.container = found.id := selected.container.trans foundId.symm
    have isFree : chunk ∈ middle.chunks := selected.without.perm.mem_iff.mpr List.mem_cons_self
    have inRow := stock.mem_row (List.mem_append_left held isFree) container
    have holds := stock.poolSound.holds chunk isFree
    have owned : found.Owns chunk :=
      ⟨container, holds.isClass.trans stock.isClass, by rw [← stock.sizes]; exact holds.sound⟩
    have inList : found ∈ front ++ found :: back := List.mem_append_right front List.mem_cons_self
    apply lockstep_sameRun
    intro counted _
    apply Lockstep.bindRun ((lists.nodeOf chunk).known
      (nodeOf_ensures (stocked.ordered.replace split foundId) inList container) (ensures_excused _))
    intro _ found' ⟨nodes, same, _⟩
    cases same
    have asRow := nodes.as stock.carved
    have untagged := asRow.anchored.untagged_of_free stock.carved.tiles inRow holds.free
    change tags ⟨found.id, chunk.bottom⟩ = false at untagged
    rw [← container] at untagged
    apply Lockstep.bindRun (asRow.setInUse owned inRow untagged true)
    intro (tagged, used) (tagged', used') ⟨nodesTagged, same⟩
    cases same
    apply lockstep_note
    apply Lockstep.bindRun (lockstep_checks _ _)
    intro _ _ _
    exact Option.Rel.some ⟨rfl, lists.withNode nodesTagged.addInUse, rfl⟩

end CollectorMemory
