import CollectorMemory.NodeList.Growth
import CollectorMemory.Pool.Take
import CollectorMemory.Proofs.Lockstep
import CollectorMemory.Proofs.NodeList.Lookup
import Mathlib.Data.List.Forall2

/-!
# Node lists side by side

Two node lists of the same shape whose nodes are related one by one. As long as related nodes have the
same handle and the same dimensions, a handle finds related nodes in both lists, all sums over the
nodes agree, and replacing related nodes leaves two such lists again.
-/

namespace CollectorMemory

/-- The elements at a position of two lists that are related one by one are related. -/
theorem forall₂_getElem? {α β : Type} {related : α → β → Prop} {left : List α}
    {right : List β} (each : List.Forall₂ related left right) (position : Nat) :
    Option.Rel related left[position]? right[position]? := by
  induction each generalizing position with
  | nil => exact Option.Rel.none
  | cons head _ ih =>
    cases position with
    | zero => exact Option.Rel.some head
    | succ position => exact ih position

/-- Two lists that are related one by one stay so where related elements are put at one position. -/
theorem forall₂_set {α β : Type} {related : α → β → Prop} {left : List α} {right : List β}
    {value : α} {other : β} (each : List.Forall₂ related left right) (both : related value other)
    (position : Nat) : List.Forall₂ related (left.set position value) (right.set position other) := by
  induction each generalizing position with
  | nil => exact List.Forall₂.nil
  | cons head rest ih =>
    cases position with
    | zero => exact List.Forall₂.cons both rest
    | succ position => exact List.Forall₂.cons head (ih position)

/-- Two lists that are related one by one are related in another way where that holds for the elements at
one position, the second of which is new, and follows for all others. -/
theorem forall₂_replace {α β : Type} {related related' : α → β → Prop} {front back : List α}
    {right : List β} {value : α} {other : β} {differs : α → Prop}
    (each : List.Forall₂ related (front ++ value :: back) right) (both : related' value other)
    (others : ∀ value ∈ front ++ back, differs value)
    (follows : ∀ value other, differs value → related value other → related' value other) :
    List.Forall₂ related' (front ++ value :: back) (right.set front.length other) := by
  induction front generalizing right with
  | nil =>
    cases each with
    | cons head rest =>
      refine List.Forall₂.cons both (List.Forall₂.imp ?_ ((List.forall₂_and_left ..).mpr ⟨others, rest⟩))
      exact fun value other together => follows value other together.1 together.2
  | cons first front ih =>
    cases each with
    | cons head rest =>
      refine List.Forall₂.cons (follows _ _ (others first List.mem_cons_self) head) (ih rest ?_)
      exact fun value member => others value (List.mem_cons_of_mem first member)

/-- Related nodes have the same handle and the same dimensions. -/
structure Node.Corresponds (related : Node → Node → Prop) : Prop where
  /-- Related nodes have the same handle. -/
  id : ∀ {node node' : Node}, related node node' → node'.id = node.id
  /-- Related nodes reserve the same words. -/
  reserved : ∀ {node node' : Node}, related node node' → node'.reserved = node.reserved
  /-- Related nodes commit the same words. -/
  committed : ∀ {node node' : Node}, related node node' → node'.committed = node.committed

/-- Two lists of the same shape whose nodes are related one by one. -/
structure NodeList.Paired (related : Node → Node → Prop) (list list' : NodeList) : Prop where
  /-- The space is the same. -/
  space : list'.space = list.space
  /-- The chunk sizes are the same. -/
  sizes : list'.sizes = list.sizes
  /-- The nodes are related one by one. -/
  nodes : List.Forall₂ related list.nodes.toList list'.nodes.toList
  /-- The next number is the same. -/
  nextIndex : list'.nextIndex = list.nextIndex
  /-- The least size of new nodes is the same. -/
  nodeWords : list'.nodeWords = list.nodeWords
  /-- The limit on reserved words is the same. -/
  limit : list'.limit = list.limit
  /-- The granule is the same. -/
  granule : list'.granule = list.granule

namespace NodeList.Paired

variable {excuse : Prop} {related : Node → Node → Prop} {list list' : NodeList} {node node' : Node}
  (corresponds : Node.Corresponds related) (lists : list.Paired related list')

include lists

/-- The nodes at a position of paired lists are related. -/
theorem getElem? (position : Nat) :
    Option.Rel related list.nodes[position]? list'.nodes[position]? := by
  rw [← Array.getElem?_toList, ← Array.getElem?_toList]
  exact forall₂_getElem? lists.nodes position

/-- Paired lists have the same number of nodes. -/
theorem nodes_size : list'.nodes.size = list.nodes.size := lists.nodes.length_eq.symm

/-- Paired lists are lists of the class space together. -/
theorem isClass : list'.isClass = list.isClass := congrArg Space.isClass lists.space

/-- Paired lists are empty together. -/
theorem isEmpty : list'.nodes.isEmpty = list.nodes.isEmpty := by
  unfold Array.isEmpty
  rw [lists.nodes_size]

/-- Paired lists have related nodes at their ends. -/
theorem current? : Option.Rel related list.current? list'.current? := by
  unfold NodeList.current?
  rw [Array.back?_eq_getElem?, Array.back?_eq_getElem?, lists.nodes_size]
  exact lists.getElem? _

/-- The most padding is the same with paired lists. -/
theorem mostPadding (size : Nat) : list'.mostPadding size = list.mostPadding size := by
  unfold NodeList.mostPadding
  rw [lists.sizes]

/-- What is the same of related nodes is the same of all nodes of paired lists. -/
theorem map_eq {α : Type} {view : Node → α}
    (same : ∀ node node' : Node, related node node' → view node = view node') :
    list'.nodes.toList.map view = list.nodes.toList.map view := by
  have views := List.rel_map (fun _ _ both => same _ _ both) lists.nodes
  rw [List.forall₂_eq_eq_eq] at views
  exact views.symm

/-- Paired lists are paired in another way that follows for their nodes. -/
theorem mono {related' : Node → Node → Prop}
    (follows : ∀ node ∈ list.nodes.toList, ∀ node', related node node' → related' node node') :
    list.Paired related' list' := by
  refine { lists with nodes := ?_ }
  apply List.Forall₂.imp ?_ ((List.forall₂_and_left ..).mpr ⟨follows, lists.nodes⟩)
  exact fun node node' together => together.1 node' together.2

include corresponds

/-- Binary search finds the same position in paired lists. -/
theorem search (index low high : Nat) :
    NodeList.search list'.nodes index low high = NodeList.search list.nodes index low high := by
  induction left : high - low using Nat.strongRecOn generalizing low high with
  | _ left ih =>
    rw [NodeList.search, NodeList.search]
    by_cases more : low < high
    · rw [if_pos more, if_pos more]
      obtain ⟨found, found'⟩ | ⟨node, node', found, found', both⟩ :=
        cases_of_rel (lists.getElem? (low + (high - low) / 2))
      · simp only [found, found']
      · simp only [found, found', corresponds.id both]
        rw [ih _ (by omega) _ _ rfl, ih _ (by omega) _ _ rfl]
    · rw [if_neg more, if_neg more]

/-- A handle has the same position in paired lists. -/
theorem position? (id : NodeId) : list'.position? id = list.position? id := by
  unfold NodeList.position?
  rw [lists.search corresponds, lists.nodes_size, lists.space]

/-- A handle finds related nodes in paired lists. -/
theorem node? (id : NodeId) : Option.Rel related (list.node? id) (list'.node? id) := by
  unfold NodeList.node?
  rw [lists.position? corresponds]
  cases list.position? id with
  | none => exact Option.Rel.none
  | some position => exact lists.getElem? position

/-- Paired lists stay paired where related nodes are put into them. -/
theorem withNode (both : related node node') :
    (list.withNode node).Paired related (list'.withNode node') := by
  unfold NodeList.withNode
  rw [corresponds.id both, lists.position? corresponds]
  cases list.position? node.id with
  | none => exact lists
  | some position =>
    refine { lists with nodes := ?_ }
    rw [Array.toList_setIfInBounds, Array.toList_setIfInBounds]
    exact forall₂_set lists.nodes both position

/-- Lists that are paired with ordered ones are ordered. -/
theorem ordered (ordered : list.Ordered) : list'.Ordered := by
  have ids := lists.map_eq fun _ _ both => (corresponds.id both).symm
  constructor
  · intro node' member
    have inIds : node'.id ∈ list.nodes.toList.map Node.id := by
      rw [← ids]
      exact List.mem_map_of_mem member
    obtain ⟨node, inList, same⟩ := List.mem_map.mp inIds
    rw [← same, lists.space]
    exact ordered.space node inList
  · have increasing : (list.nodes.toList.map Node.id).Pairwise fun left right =>
        left.index < right.index := List.pairwise_map.mpr ordered.increasing
    rw [← ids, List.pairwise_map] at increasing
    exact increasing

/-- Paired lists are paired in another way where that holds for a new node in the second list and follows
for all other nodes. -/
theorem replace {related' : Node → Node → Prop} {front back : List Node} {after : Node}
    (ordered : list.Ordered) (split : list.nodes.toList = front ++ node :: back)
    (both : related' node after) (same : after.id = node.id)
    (follows : ∀ other other', other.id ≠ node.id → related other other' → related' other other') :
    list.Paired related' (list'.withNode after) := by
  unfold NodeList.withNode
  rw [same, lists.position? corresponds, ordered.position?_eq split]
  refine { lists with nodes := ?_ }
  have each := lists.nodes
  rw [split] at each ⊢
  rw [Array.toList_setIfInBounds]
  exact forall₂_replace each both (ordered.id_ne split) follows

/-- Paired lists reserve the same words. -/
theorem reservedWords : list'.reservedWords = list.reservedWords := by
  unfold NodeList.reservedWords
  rw [lists.map_eq fun _ _ both => (corresponds.reserved both).symm]

/-- Paired lists commit the same words. -/
theorem committedWords : list'.committedWords = list.committedWords := by
  unfold NodeList.committedWords
  rw [lists.map_eq fun _ _ both => (corresponds.committed both).symm]

/-- Paired lists reserve new nodes in lockstep if these are reserved so by themselves. -/
theorem reserve {words : Nat} (reserves : words < wordLimit → Lockstep excuse related
      (Node.reserve ⟨list.space, list.nextIndex⟩ words list.sizes list.audited).outcome
      (Node.reserve ⟨list.space, list.nextIndex⟩ words list.sizes list'.audited).outcome) :
    Lockstep excuse
      (Option.Rel fun after after' => after.Paired related after' ∧ after.audited = list.audited ∧
        after'.audited = list'.audited)
      (list.reserve words).outcome (list'.reserve words).outcome := by
  unfold NodeList.reserve
  rw [lists.isClass, lists.isEmpty, lists.reservedWords corresponds, lists.limit, lists.nextIndex,
    lists.space, lists.sizes]
  split
  · exact Option.Rel.none
  · apply lockstep_sameRun
    intro reserved _
    apply lockstep_sameRun
    intro total added
    split
    · apply lockstep_note
      exact Option.Rel.none
    · apply lockstep_sameRun
      intro nextIndex _
      have sum := (Count.add_ensures (absurd trivial)).of_ok added
      apply Lockstep.bindRun (reserves (by omega))
      intro node node' both
      refine Option.Rel.some ⟨⟨rfl, rfl, ?_, rfl, lists.nodeWords, rfl, lists.granule⟩, rfl, rfl⟩
      rw [Array.toList_push, Array.toList_push]
      exact List.rel_append lists.nodes (List.Forall₂.cons both List.Forall₂.nil)

/-- Paired lists commit words in their last nodes in lockstep if related nodes do. -/
theorem expandCurrent {least preferred : Nat} (expands : ∀ node node', related node node' →
      Lockstep excuse (Option.Rel related) (node.expand least preferred).outcome
        (node'.expand least preferred).outcome) :
    Lockstep excuse
      (fun (isDone, list) (isDone', list') => isDone' = isDone ∧ list.Paired related list')
      (list.expandCurrent least preferred).outcome
      (list'.expandCurrent least preferred).outcome := by
  unfold NodeList.expandCurrent
  obtain ⟨found, found'⟩ | ⟨node, node', found, found', both⟩ := cases_of_rel lists.current?
  · rw [found, found']
    exact ⟨rfl, lists⟩
  · rw [found, found']
    apply Lockstep.bindRun (expands node node' both)
    intro grown grown' both
    cases both with
    | none => exact ⟨rfl, lists⟩
    | some both => exact ⟨rfl, lists.withNode corresponds both⟩

/-- The node of a chunk is looked up in lockstep in paired lists. -/
theorem nodeOf (chunk : Chunk) :
    Lockstep excuse related (Pool.nodeOf list chunk) (Pool.nodeOf list' chunk) := by
  unfold Pool.nodeOf
  obtain ⟨found, found'⟩ | ⟨node, node', found, found', both⟩ :=
    cases_of_rel (lists.node? corresponds chunk.container)
  · rw [found, found']
    exact Or.inr rfl
  · rw [found, found']
    exact both

end NodeList.Paired

end CollectorMemory
