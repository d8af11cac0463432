import CollectorMemory.Allocator.Basic
import CollectorMemory.Proofs.Ensures
import CollectorMemory.Proofs.NodeList.Lookup

/-!
# Numbers of nodes

Every number is given to one node only. Whatever is done with a list, its nodes have numbers that
they had before, or numbers that were not given out before (`NodeList.Continues`). So a number that no
node has any more is not found again. None of this depends on what the nodes contain.
-/

namespace CollectorMemory

variable {list list' middle : NodeList} {node : Node} {pool : Pool} {number words : Nat}
  {least preferred size suggested : Nat} {keep : Option NodeId} {nodes : List Node} {kind : Kind}

/-- A new node has the handle that it is given. -/
theorem Node.reserve_id {id : NodeId} {sizes : ChunkSizes} {audited : Bool} :
    Ensures True (Node.reserve id words sizes audited).outcome fun node => node.id = id := by
  unfold Node.reserve
  apply Ensures.bindRun (ensures_excused _)
  intro _ _
  apply ensures_note
  apply Ensures.bindRun (ensures_excused _)
  intro _ _
  rfl

namespace NodeList

/-- The numbers of the nodes. -/
def numbers (list : NodeList) : List Nat := list.nodes.toList.map fun node => node.id.index

/-- A list after operations on another: its nodes were there before or have new numbers. -/
structure Continues (list after : NodeList) : Prop where
  /-- The space stays. -/
  space : after.space = list.space
  /-- Numbers that were given out stay given out. -/
  nextIndex : list.nextIndex ≤ after.nextIndex
  /-- The numbers of the nodes were there before or are new. -/
  numbers : ∀ number ∈ after.numbers, number ∈ list.numbers ∨ list.nextIndex ≤ number
  /-- Numbers are counted in half a word. -/
  counted : list.nextIndex < 2 ^ 32 → after.nextIndex < 2 ^ 32

namespace Continues

/-- A list continues itself. -/
theorem refl (list : NodeList) : list.Continues list :=
  ⟨rfl, Nat.le_refl _, fun _ member => Or.inl member, id⟩

/-- What continues a list that continues another continues that one. -/
theorem trans (first : list.Continues middle) (second : middle.Continues list') :
    list.Continues list' where
  space := second.space.trans first.space
  nextIndex := Nat.le_trans first.nextIndex second.nextIndex
  numbers := by
    intro number member
    rcases second.numbers number member with old | isNew
    · exact first.numbers number old
    · exact Or.inr (Nat.le_trans first.nextIndex isNew)
  counted := fun few => second.counted (first.counted few)

/-- A number that was given out and that no node has any more is never taken again. -/
theorem not_mem (continues : list.Continues list') (given : number < list.nextIndex)
    (gone : number ∉ list.numbers) : number ∉ list'.numbers := by
  intro member
  rcases continues.numbers number member with old | isNew
  · exact gone old
  · omega

/-- A list with fewer nodes continues one. -/
theorem of_sublist (fewer : nodes.Sublist list.nodes.toList) :
    list.Continues { list with nodes := nodes.toArray } :=
  ⟨rfl, Nat.le_refl _, fun _ member => Or.inl ((fewer.map _).subset member), id⟩

end Continues

/-- Replacing a node by a state of it keeps all numbers. -/
theorem continues_withNode (list : NodeList) (node : Node) :
    list.Continues (list.withNode node) := by
  unfold withNode
  cases found : list.position? node.id with
  | none => exact Continues.refl list
  | some position =>
    unfold position? at found
    split at found
    · obtain ⟨old, isOld, sameNumber⟩ := search_sound found
      rw [← Array.getElem?_toList] at isOld
      obtain ⟨inside, isAt⟩ := List.getElem?_eq_some_iff.mp isOld
      have insideNumbers : position < list.numbers.length := by simpa [numbers] using inside
      have isNumber : list.numbers[position] = node.id.index := by simp [numbers, isAt, sameNumber]
      have same : numbers { list with nodes := list.nodes.setIfInBounds position node } =
          list.numbers := by
        simp only [numbers, Array.toList_setIfInBounds, List.map_set]
        rw [← isNumber]
        exact List.set_getElem_self insideNumbers
      exact ⟨rfl, Nat.le_refl _, fun number member => Or.inl (same ▸ member), id⟩
    · cases found

/-- A new node takes the next number. -/
theorem reserve_continues : Ensures True (list.reserve words).outcome fun result =>
    ∀ list' ∈ result, list.Continues list' := by
  unfold reserve
  split
  · exact fun _ isSome => by cases isSome
  · apply Ensures.bindRun (ensures_excused _)
    intro _ _
    apply Ensures.bindRun (ensures_excused _)
    intro _ _
    split
    · apply ensures_note
      exact fun _ isSome => by cases isSome
    · apply Ensures.bindRun (Count.addHalf_ensures fun hard => absurd trivial hard)
      rintro _ ⟨rfl, inside⟩
      apply Ensures.bindRun Node.reserve_id
      intro node isId list' isSome
      obtain rfl := Option.mem_some.mp isSome
      refine ⟨rfl, Nat.le_succ _, fun number member => ?_, fun _ => inside⟩
      simp only [numbers, Array.toList_push, List.map_append, List.map_cons, List.map_nil,
        List.mem_append, List.mem_singleton, isId] at member
      rcases member with old | isNew
      · exact Or.inl old
      · exact Or.inr (Nat.le_of_eq isNew.symm)

/-- Committing more of the current node keeps all numbers. -/
theorem expandCurrent_continues : Ensures True (list.expandCurrent least preferred).outcome
    fun (_, list') => list.Continues list' := by
  unfold expandCurrent
  split
  · exact Continues.refl list
  · apply Ensures.bindRun (ensures_excused _)
    intro result _
    cases result with
    | none => exact Continues.refl list
    | some node => exact list.continues_withNode node

/-- Retiring the current node keeps all numbers. -/
theorem retireCurrent_continues : Ensures True (list.retireCurrent pool).outcome
    fun (list', _) => list.Continues list' := by
  unfold retireCurrent
  split
  · exact Continues.refl list
  · apply Ensures.bindRun (ensures_excused _)
    intro retired _
    exact list.continues_withNode retired.1

/-- Growing gives out at most new numbers. -/
theorem expand_continues : Ensures True (list.expand least preferred pool).outcome
    fun (_, list', _) => list.Continues list' := by
  unfold expand
  apply Ensures.bindRun (ensures_excused _)
  intro _ _
  dsimp only
  split
  · apply ensures_note
    exact Continues.refl list
  apply Ensures.bindRun expandCurrent_continues
  intro (isDone, first) expanded
  dsimp only
  split
  · exact expanded
  split
  · exact expanded
  apply Ensures.bindRun retireCurrent_continues
  intro (second, _) retired
  apply Ensures.bindRun (ensures_excused _)
  intro _ _
  apply Ensures.bindRun reserve_continues
  intro result reserved
  cases result with
  | none => exact expanded.trans retired
  | some third =>
    apply Ensures.bindRun expandCurrent_continues
    intro (_, last) expandedLast
    exact ((expanded.trans retired).trans (reserved third rfl)).trans expandedLast

/-- Carving from the current node keeps all numbers. -/
theorem takeCurrent_continues : Ensures True (list.takeCurrent size pool).outcome
    fun (_, list', _) => list.Continues list' := by
  unfold takeCurrent
  split
  · exact Continues.refl list
  · apply Ensures.bindRun (ensures_excused _)
    intro result _
    cases result with
    | none => exact Continues.refl list
    | some carved => exact list.continues_withNode carved.1

/-- A new chunk needs at most new numbers. -/
theorem newChunk_continues : Ensures True (list.newChunk size suggested pool).outcome
    fun (_, list', _) => list.Continues list' := by
  unfold newChunk
  apply Ensures.bindRun takeCurrent_continues
  intro (found, first, _) taken
  dsimp only
  split
  · exact taken
  apply Ensures.bindRun (ensures_excused _)
  intro _ _
  apply Ensures.bindRun (ensures_excused _)
  intro _ _
  apply Ensures.bindRun (ensures_excused _)
  intro _ _
  apply Ensures.bindRun (ensures_excused _)
  intro _ _
  apply Ensures.bindRun expand_continues
  intro (isDone, second, _) expanded
  dsimp only
  split
  · exact taken.trans expanded
  split
  · exact taken.trans expanded
  apply Ensures.bindRun takeCurrent_continues
  intro (_, third, _) takenLast
  apply ensures_noteIf
  exact (taken.trans expanded).trans takenLast

/-- What is not given up are some of the nodes. -/
theorem purgeNodes_sublist : Ensures True (purgeNodes keep pool nodes).outcome
    fun (kept, _) => kept.Sublist nodes := by
  induction nodes generalizing pool with
  | nil => exact List.Sublist.refl []
  | cons node rest ih =>
    unfold purgeNodes
    split
    · apply ensures_note
      apply Ensures.bindRun (ensures_excused _)
      intro _ _
      apply Ensures.bindRun ih
      intro (kept, _) fewer
      exact fewer.cons node
    · apply Ensures.bindRun ih
      intro (kept, _) fewer
      exact fewer.cons_cons node

/-- Purging keeps numbers. -/
theorem purge_continues : Ensures True (list.purge pool).outcome
    fun (list', _) => list.Continues list' := by
  unfold purge
  apply Ensures.bindRun purgeNodes_sublist
  intro (kept, _) fewer
  exact Continues.of_sublist fewer

end NodeList

namespace Pool

/-- Splitting a free chunk keeps all numbers. -/
theorem splitLarger_continues : Ensures True (pool.splitLarger list kind).outcome fun result =>
    ∀ value ∈ result, list.Continues value.2 := by
  unfold splitLarger
  split
  · exact fun _ isSome => by cases isSome
  · apply ensures_note
    apply Ensures.bindRun (ensures_excused _)
    intro _ _
    apply Ensures.bindRun (ensures_excused _)
    intro (node, _, _) _
    apply Ensures.bindRun (ensures_excused _)
    intro _ _
    apply Ensures.bindRun (ensures_excused _)
    intro _ _
    apply Ensures.bindRun (ensures_excused _)
    intro _ _ value isSome
    obtain rfl := Option.mem_some.mp isSome
    exact list.continues_withNode node

/-- Selecting a free chunk keeps all numbers. -/
theorem select_continues : Ensures True (pool.select list size).outcome fun result =>
    ∀ value ∈ result, list.Continues value.2.1 := by
  unfold select
  apply Ensures.bindRun (ensures_excused _)
  intro kind _
  dsimp only
  split
  · split
    · exact fun _ isSome => by cases isSome
    · intro value isSome
      obtain rfl := Option.mem_some.mp isSome
      exact NodeList.Continues.refl list
  · split
    · intro value isSome
      obtain rfl := Option.mem_some.mp isSome
      exact NodeList.Continues.refl list
    · apply Ensures.bindRun splitLarger_continues
      intro result split
      match result with
      | none => exact fun _ isSome => by cases isSome
      | some (pool', list') =>
        intro value isSome
        obtain ⟨_, _, rfl⟩ := Option.map_eq_some_iff.mp isSome
        exact split (pool', list') rfl

/-- Taking a free chunk keeps all numbers. -/
theorem take_continues : Ensures True (pool.take list size).outcome fun result =>
    ∀ value ∈ result, list.Continues value.2.1 := by
  unfold take
  apply Ensures.bindRun select_continues
  intro result selected
  match result with
  | none => exact fun _ isSome => by cases isSome
  | some (pool', list', chunk) =>
    apply Ensures.bindRun (ensures_excused _)
    intro _ _
    apply Ensures.bindRun (ensures_excused _)
    intro _ _
    apply Ensures.bindRun (ensures_excused _)
    intro (node, _) _
    apply ensures_note
    apply Ensures.bindRun (ensures_excused _)
    intro _ _ value isSome
    obtain rfl := Option.mem_some.mp isSome
    exact (selected _ rfl).trans (list'.continues_withNode _)

end Pool

/-- Providing a chunk gives out at most new numbers. -/
theorem Arena.provide_continues {arena : Arena} :
    Ensures True (arena.provide size suggested).outcome
      fun (_, arena') => arena.list.Continues arena'.list := by
  unfold provide
  apply Ensures.bindRun Pool.take_continues
  intro result taken
  match result with
  | some (pool', list', chunk) => exact taken _ rfl
  | none =>
    apply Ensures.bindRun NodeList.newChunk_continues
    intro (_, list', _) continues
    exact continues

namespace Allocator

variable {allocator after last : Allocator} {space : Space} {arena' : Arena} {chunk : Chunk}
  {place : Location} {data : List UInt64}

/-- An allocator after operations on another: no number of a node is given out twice. -/
def Continues (allocator after : Allocator) : Prop :=
  ∀ space, (allocator.arena space).list.Continues (after.arena space).list

/-- An allocator continues itself. -/
theorem Continues.refl (allocator : Allocator) : allocator.Continues allocator :=
  fun _ => NodeList.Continues.refl _

/-- What continues an allocator that continues another continues that one. -/
theorem Continues.trans (first : allocator.Continues after) (second : after.Continues last) :
    allocator.Continues last :=
  fun space => (first space).trans (second space)

/-- An allocator is continued where one of its lists is. -/
theorem Continues.withArena (continues : (allocator.arena space).list.Continues arena'.list) :
    allocator.Continues (allocator.withArena space arena') := by
  intro other
  cases space <;> cases other <;>
    first | exact continues | exact NodeList.Continues.refl _

/-- Allocating gives out at most new numbers. -/
theorem allocate_continues : Ensures True (allocator.allocate space size).outcome
    fun (_, after) => allocator.Continues after := by
  unfold allocate
  apply Ensures.bindRun (ensures_excused _)
  intro _ _
  apply Ensures.bindRun Arena.provide_continues
  intro (found, arena') continues
  cases found with
  | none =>
    apply ensures_note
    exact Continues.withArena continues
  | some chunk =>
    apply Ensures.bindRun (ensures_excused _)
    intro _ _
    apply ensures_note
    exact Continues.withArena continues

/-- Putting a chunk back keeps all numbers. -/
theorem putBack_continues : Ensures True (allocator.putBack chunk).outcome allocator.Continues := by
  unfold putBack
  dsimp only
  split
  · trivial
  · apply Ensures.bindRun (ensures_excused _)
    intro emptied _
    exact Continues.withArena (NodeList.continues_withNode _ emptied.2)

/-- Writing keeps all numbers. -/
theorem writeWords_continues :
    Ensures True (allocator.writeWords chunk place data) allocator.Continues := by
  unfold writeWords
  apply Ensures.bind (ensures_excused _)
  intro _ _
  apply Ensures.bind (ensures_excused _)
  intro _ _
  apply Ensures.bind (ensures_excused _)
  intro node _
  exact Continues.withArena (NodeList.continues_withNode _ node)

/-- Purging a space keeps numbers. -/
theorem purge_continues : Ensures True (allocator.purge space).outcome
    fun (_, after) => allocator.Continues after := by
  unfold purge
  apply Ensures.bindRun NodeList.purge_continues
  intro (list', _, _) continues
  apply ensures_noteIf
  exact Continues.withArena continues

end Allocator

end CollectorMemory
