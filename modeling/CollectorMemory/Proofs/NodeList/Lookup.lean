import CollectorMemory.NodeList.Basic

/-!
# Looking nodes up

The nodes of a list have increasing numbers, so binary search finds the position of every node, and
replacing a node by another state of it changes the list at that position alone.
-/

namespace CollectorMemory

namespace NodeList

variable {list : NodeList} {node node' : Node} {id : NodeId} {front back : List Node}

/-- The nodes are those of the space, oldest first. -/
structure Ordered (list : NodeList) : Prop where
  /-- Every node belongs to the space. -/
  space : ∀ node ∈ list.nodes.toList, node.id.space = list.space
  /-- Later nodes have higher numbers. -/
  increasing : list.nodes.toList.Pairwise fun left right => left.id.index < right.id.index

/-- What binary search finds has the index that was searched for. -/
theorem search_sound {nodes : Array Node} {index low high position : Nat}
    (found : search nodes index low high = some position) :
    ∃ node, nodes[position]? = some node ∧ node.id.index = index := by
  induction left : high - low using Nat.strongRecOn generalizing low high with
  | _ left ih =>
    rw [search] at found
    split at found
    · next more =>
      simp only at found
      split at found
      · cases found
      · next node isThere =>
        split at found
        · next same =>
          cases found
          exact ⟨node, isThere, same⟩
        · split at found
          · exact ih (high - (low + (high - low) / 2 + 1)) (by omega) found rfl
          · exact ih (low + (high - low) / 2 - low) (by omega) found rfl
    · cases found

/-- Binary search finds a node between its bounds. -/
theorem search_complete {nodes : Array Node}
    (increasing : nodes.toList.Pairwise fun left right => left.id.index < right.id.index)
    {low high position : Nat} (isThere : nodes[position]? = some node) (lower : low ≤ position)
    (upper : position < high) (inside : high ≤ nodes.size) :
    search nodes node.id.index low high = some position := by
  have ordered := List.pairwise_iff_getElem.mp increasing
  obtain ⟨positionInside, isNode⟩ := Array.getElem?_eq_some_iff.mp isThere
  induction left : high - low using Nat.strongRecOn generalizing low high with
  | _ left ih =>
    have middleInside : low + (high - low) / 2 < nodes.size := by omega
    rw [search, if_pos (by omega)]
    simp only [Array.getElem?_eq_getElem middleInside]
    by_cases same : low + (high - low) / 2 = position
    · have found : nodes[low + (high - low) / 2].id.index = node.id.index := by
        rw [← isNode]
        simp only [same]
      rw [if_pos found, same]
    · rcases Nat.lt_or_gt_of_ne same with before | after
      · have less := ordered (low + (high - low) / 2) position (by simpa using middleInside)
          (by simpa using positionInside) before
        simp only [Array.getElem_toList, isNode] at less
        rw [if_neg (by omega), if_pos less]
        exact ih (high - (low + (high - low) / 2 + 1)) (by omega) (by omega) upper inside rfl
      · have more := ordered position (low + (high - low) / 2) (by simpa using positionInside)
          (by simpa using middleInside) after
        simp only [Array.getElem_toList, isNode] at more
        rw [if_neg (by omega), if_neg (by omega)]
        exact ih (low + (high - low) / 2 - low) (by omega) lower (by omega) (by omega) rfl

/-- The position of a node is the number of nodes before it. -/
theorem Ordered.position?_eq (ordered : list.Ordered)
    (split : list.nodes.toList = front ++ node :: back) :
    list.position? node.id = some front.length := by
  have member : node ∈ list.nodes.toList := by
    rw [split]
    exact List.mem_append_right front List.mem_cons_self
  have isThere : list.nodes[front.length]? = some node := by
    rw [← Array.getElem?_toList, split, List.getElem?_append_right (Nat.le_refl _), Nat.sub_self]
    rfl
  have below : front.length < list.nodes.size := by
    rw [← Array.length_toList, split, List.length_append, List.length_cons]
    omega
  unfold position?
  rw [if_pos (ordered.space node member)]
  exact search_complete ordered.increasing isThere (Nat.zero_le _) below (Nat.le_refl _)

/-- A node of the list is found by its handle. -/
theorem Ordered.node?_eq (ordered : list.Ordered)
    (split : list.nodes.toList = front ++ node :: back) : list.node? node.id = some node := by
  unfold node?
  rw [ordered.position?_eq split, Option.bind_some, ← Array.getElem?_toList, split,
    List.getElem?_append_right (Nat.le_refl _), Nat.sub_self]
  rfl

/-- What is found by a handle is a node of the list with that handle. -/
theorem Ordered.exists_split (ordered : list.Ordered) (found : list.node? id = some node) :
    node.id = id ∧ ∃ front back, list.nodes.toList = front ++ node :: back := by
  unfold node? at found
  obtain ⟨position, isPosition, isThere⟩ := Option.bind_eq_some_iff.mp found
  unfold position? at isPosition
  split at isPosition
  · next inSpace =>
    obtain ⟨other, otherThere, sameIndex⟩ := search_sound isPosition
    have same : other = node := Option.some.inj (otherThere.symm.trans isThere)
    subst same
    rw [← Array.getElem?_toList] at isThere
    have member : other ∈ list.nodes.toList := List.mem_of_getElem? isThere
    have sameSpace := ordered.space other member
    refine ⟨?_, List.append_of_mem member⟩
    cases isOther : other.id with
    | mk space index =>
      cases isId : id with
      | mk idSpace idIndex =>
        simp_all
  · cases isPosition

/-- Replacing a node changes the list at its position alone. -/
theorem Ordered.withNode_eq (ordered : list.Ordered)
    (split : list.nodes.toList = front ++ node :: back) (same : node'.id = node.id) :
    list.withNode node' = { list with nodes := (front ++ node' :: back).toArray } := by
  unfold withNode
  rw [same, ordered.position?_eq split]
  have nodes : list.nodes.setIfInBounds front.length node' =
      (front ++ node' :: back).toArray := by
    apply Array.toList_inj.mp
    rw [Array.toList_setIfInBounds, split, List.set_append_right _ _ (Nat.le_refl _), Nat.sub_self]
    rfl
  simp only [nodes]

/-- A list stays ordered where a node is replaced by another state of it. -/
theorem Ordered.replace (ordered : list.Ordered)
    (split : list.nodes.toList = front ++ node :: back) (same : node'.id = node.id) :
    Ordered { list with nodes := (front ++ node' :: back).toArray } := by
  obtain ⟨space, increasing⟩ := ordered
  rw [split] at space increasing
  constructor
  · intro other member
    rcases List.mem_append.mp member with inFront | inRest
    · exact space other (List.mem_append_left _ inFront)
    · rcases List.mem_cons.mp inRest with isNode | inBack
      · rw [isNode, same]
        exact space node (List.mem_append_right _ List.mem_cons_self)
      · exact space other (List.mem_append_right _ (List.mem_cons_of_mem node inBack))
  · change (front ++ node' :: back).Pairwise _
    rw [List.pairwise_append, List.pairwise_cons] at increasing ⊢
    rw [same]
    obtain ⟨frontIncreasing, ⟨nodeLess, backIncreasing⟩, across⟩ := increasing
    refine ⟨frontIncreasing, ⟨nodeLess, backIncreasing⟩, ?_⟩
    intro left inFront right inRest
    rcases List.mem_cons.mp inRest with isNode | inBack
    · rw [isNode, same]
      exact across left inFront node List.mem_cons_self
    · exact across left inFront right (List.mem_cons_of_mem node inBack)

/-- All other nodes of the list have other handles. -/
theorem Ordered.id_ne (ordered : list.Ordered)
    (split : list.nodes.toList = front ++ node :: back) :
    ∀ other ∈ front ++ back, other.id ≠ node.id := by
  have increasing := ordered.increasing
  rw [split, List.pairwise_append, List.pairwise_cons] at increasing
  obtain ⟨_, ⟨nodeLess, _⟩, across⟩ := increasing
  intro other member same
  rcases List.mem_append.mp member with inFront | inBack
  · have less := across other inFront node List.mem_cons_self
    rw [same] at less
    exact Nat.lt_irrefl _ less
  · have less := nodeLess other inBack
    rw [same] at less
    exact Nat.lt_irrefl _ less

/-- Where a node is replaced, the nodes are its new state and the others as they were. -/
theorem Ordered.mem_replace (ordered : list.Ordered)
    (split : list.nodes.toList = front ++ node :: back) {other : Node} :
    other ∈ front ++ node' :: back ↔
      other = node' ∨ other ∈ list.nodes.toList ∧ other.id ≠ node.id := by
  have differs := ordered.id_ne split
  rw [split, List.mem_append, List.mem_append, List.mem_cons, List.mem_cons]
  constructor
  · rintro (inFront | isNode | inBack)
    · exact Or.inr ⟨Or.inl inFront, differs other (List.mem_append_left back inFront)⟩
    · exact Or.inl isNode
    · exact Or.inr ⟨Or.inr (Or.inr inBack), differs other (List.mem_append_right front inBack)⟩
  · rintro (isNode | ⟨inFront | isNode | inBack, differs⟩)
    · exact Or.inr (Or.inl isNode)
    · exact Or.inl inFront
    · rw [isNode] at differs
      exact absurd rfl differs
    · exact Or.inr (Or.inr inBack)

/-- Where a node is replaced, a handle finds the same node as before, or the new state of the one that
was replaced. -/
theorem Ordered.node?_replace (ordered : list.Ordered)
    (split : list.nodes.toList = front ++ node :: back) (same : node'.id = node.id) {other : Node}
    (found : list.node? id = some other) : ∃ other',
      NodeList.node? { list with nodes := (front ++ node' :: back).toArray } id = some other' ∧
        (other' = other ∨ other = node ∧ other' = node') := by
  have orderedAfter := ordered.replace split same
  obtain ⟨isOther, otherFront, otherBack, otherSplit⟩ := ordered.exists_split found
  by_cases isHere : other.id = node.id
  · have foundAfter := orderedAfter.node?_eq (show _ = front ++ node' :: back from rfl)
    have foundBefore := ordered.node?_eq split
    rw [same, ← isHere, isOther] at foundAfter
    rw [← isHere, isOther, found] at foundBefore
    exact ⟨node', foundAfter, Or.inr ⟨Option.some.inj foundBefore, rfl⟩⟩
  · have old : other ∈ list.nodes.toList := by
      rw [otherSplit]
      exact List.mem_append_right _ List.mem_cons_self
    have otherMember : other ∈ front ++ node' :: back :=
      (ordered.mem_replace split).mpr (Or.inr ⟨old, isHere⟩)
    obtain ⟨newFront, newBack, newSplit⟩ := List.append_of_mem otherMember
    refine ⟨other, ?_, Or.inl rfl⟩
    rw [← isOther]
    exact orderedAfter.node?_eq newSplit

/-- A list stays ordered where a node with the next number comes last. -/
theorem Ordered.push (ordered : list.Ordered) (space : node.id.space = list.space)
    (older : ∀ other ∈ list.nodes.toList, other.id.index < node.id.index) (nextIndex : Nat) :
    Ordered { list with nodes := list.nodes.push node, nextIndex } := by
  constructor
  · intro other member
    rw [Array.toList_push] at member
    rcases List.mem_append.mp member with inList | isNode
    · exact ordered.space other inList
    · rw [List.mem_singleton.mp isNode]
      exact space
  · rw [Array.toList_push, List.pairwise_append]
    refine ⟨ordered.increasing, List.pairwise_singleton _ _, ?_⟩
    intro other inList
    rw [List.forall_mem_singleton]
    exact older other inList

/-- Nodes of the list with the same handle are equal. -/
theorem Ordered.eq_of_id (ordered : list.Ordered) (member : node ∈ list.nodes.toList)
    (member' : node' ∈ list.nodes.toList) (same : node.id = node'.id) : node = node' := by
  obtain ⟨front, back, split⟩ := List.append_of_mem member
  obtain ⟨front', back', split'⟩ := List.append_of_mem member'
  have found := ordered.node?_eq split
  have found' := ordered.node?_eq split'
  rw [same, found'] at found
  exact (Option.some.inj found).symm

end NodeList

end CollectorMemory
